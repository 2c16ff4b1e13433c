import ContractMigration.Proofs.Json.RoundTrip
import ContractMigration.Repository.Ingest

/-! Keys, metadata and trees are read back from what is written for them. Counts are written as an object with a member
for each key that occurs; trees are read back as deep as brackets may lie. -/

namespace ContractMigration

open Json (Value)
open Json.Fields

theorem exposure_reader (e : Exposure) : Exposure.reader (Value.string e.name).doc = .ok e := by
  cases e <;> rfl

theorem category_reader (c : Category) : Category.reader (Value.string c.name).doc = .ok c := by
  cases c <;> rfl

theorem choose_category (c : Category) : Json.choose Category.cases none c.name = .ok c := by
  cases c <;> rfl

namespace Key

theorem reader_toJson (k : Key) : reader k.toJson.doc = .ok k :=
  Json.record_object <| (reads_one (Json.string_doc k.owner) none).map Key.mk
    |>.seq (reads_one (Json.string_doc k.name) none) (by decide)

theorem plain_toJson (k : Key) : k.toJson.Plain 1 := by
  simp [toJson]

end Key

namespace Metadata

/-- The size is a number of sixty-four bits. -/
def InRange (m : Metadata) : Prop := m.sizeKb < Nat.pow 2 64

theorem reader_toJson (m : Metadata) : reader m.toJson.doc = .ok m :=
  Json.record_object <| (reads_one (Json.string_doc m.owner) none).map Metadata.mk
    |>.seq (reads_one (Json.string_doc m.name) none) (by decide)
    |>.seq (reads_one (Json.string_doc m.url) none) (by decide)
    |>.seq (reads_one (Json.string_doc m.defaultBranch) none) (by decide)
    |>.seq (reads_one (exposure_reader m.visibility) none) (by decide)
    |>.seq (reads_one (Json.size_doc m.sizeKb) none) (by decide)

theorem plain_toJson (m : Metadata) (hm : m.InRange) : m.toJson.Plain 1 := by
  simpa [toJson, InRange] using hm

end Metadata

/-! ### Counts -/

namespace Tally

variable {α : Type} [DecidableEq α] {rank : α → Nat} {name : α → String} {cases : List (Json.Case α)} {otherwise : Option α}

/-- Each key is listed once, in the order of the ranks. -/
def Ordered (rank : α → Nat) (t : Tally α) : Prop := t.Pairwise fun x y => rank x.1 < rank y.1

theorem set_of_lt {t : Tally α} {a : α} (n : Nat) (h : ∀ x ∈ t, rank x.1 < rank a) : set rank a n t = t ++ [(a, n)] := by
  induction t with
  | nil => rfl
  | cons x t ih =>
    obtain ⟨b, m⟩ := x
    have hb : rank b < rank a := h (b, m) List.mem_cons_self
    have hne : a ≠ b := by
      rintro rfl
      omega
    rw [set, if_neg hne, if_neg (by omega), ih fun y hy => h y (List.mem_cons_of_mem _ hy)]
    rfl

theorem foldl_set {t : Tally α} (u : Tally α) (h : (u ++ t).Ordered rank) :
    t.foldl (fun m x => set rank x.1 x.2 m) u = u ++ t := by
  induction t generalizing u with
  | nil => simp
  | cons x t ih =>
    have hset : set rank x.1 x.2 u = u ++ [x] :=
      set_of_lt x.2 fun y hy => (List.pairwise_append.1 h).2.2 y hy x List.mem_cons_self
    rw [List.foldl_cons, hset, ih (u ++ [x]) (by simpa using h), List.append_assoc, List.singleton_append]

theorem reader_toJson (hname : ∀ a, Json.choose cases otherwise (name a) = .ok a) {t : Tally α} (ht : t.Ordered rank) :
    reader rank cases otherwise (t.toJson name).doc = .ok t := by
  have hread : reader rank cases otherwise (t.toJson name).doc = .ok (t.foldl (fun m x => set rank x.1 x.2 m) []) :=
    Json.map_doc (fun x _ => hname x.1) (fun x _ => Json.count_doc x.2) []
  rw [hread, foldl_set [] (by simpa using ht), List.nil_append]

omit [DecidableEq α] in
theorem plain_toJson {t : Tally α} (name : α → String) (ht : ∀ x ∈ t, x.2 < Nat.pow 2 64) : (t.toJson name).Plain 1 := by
  refine .object fun m hm => ?_
  obtain ⟨x, hx, rfl⟩ := List.mem_map.1 hm
  exact .nat (ht x hx)

end Tally

/-! ### Trees -/

namespace FileNode

theorem reader_toJson (f : FileNode) : reader f.toJson.doc = .ok f :=
  Json.record_object <| (reads_one (Json.string_doc f.path) none).map FileNode.mk
    |>.seq (reads_one (Json.string_doc f.name) none) (by decide)
    |>.seq (reads_one (Json.size_doc f.sizeBytes) none) (by decide)
    |>.seq (reads_one (category_reader f.category) none) (by decide)

theorem plain_toJson (f : FileNode) (hf : f.sizeBytes < Nat.pow 2 64) : f.toJson.Plain 1 := by
  simpa [toJson] using hf

end FileNode

namespace Directory

/-- What holds of a directory if it holds of the directories in it holds of all directories. -/
theorem nested {motive : Directory → Prop}
    (mk : ∀ path files directories, (∀ d ∈ directories, motive d) → motive (.mk path files directories)) :
    ∀ d, motive d
  | .mk path files directories => mk path files directories fun d _ => nested mk d
termination_by d => sizeOf d
decreasing_by
  have := List.sizeOf_lt_of_mem ‹_›
  simp only [Directory.mk.sizeOf_spec]
  omega

theorem listToJson_eq (ds : List Directory) : listToJson ds = ds.map toJson := by
  induction ds with
  | nil => rfl
  | cons d ds ih => rw [listToJson, ih, List.map_cons]

theorem mem_allFilesOf {f : FileNode} {ds : List Directory} : f ∈ allFilesOf ds ↔ ∃ d ∈ ds, f ∈ d.allFiles := by
  induction ds with
  | nil => simp [allFilesOf]
  | cons d ds ih => simp [allFilesOf, ih]

/-- The brackets of a directory, and those of its files and directories. -/
theorem depth_toJson (path : String) (files : List FileNode) (directories : List Directory) :
    (toJson (.mk path files directories)).depth =
      max (Json.itemsDepth (files.map FileNode.toJson)) (Json.itemsDepth (directories.map toJson)) + 2 := by
  simp [toJson, listToJson_eq, Value.depth, Json.membersDepth]

theorem readerWithin_toJson (d : Directory) {levels : Nat} (h : d.toJson.depth ≤ levels) :
    readerWithin levels d.toJson.doc = .ok d := by
  induction d using nested generalizing levels with
  | mk path files directories ih =>
    rw [depth_toJson] at h
    obtain ⟨levels, rfl⟩ := Nat.exists_eq_add_of_le' (Nat.le_of_add_left_le h)
    have hinner : ∀ d ∈ directories, readerWithin (levels + 1) d.toJson.doc = .ok d := by
      intro d hd
      have hdepth := Json.depth_le_itemsDepth (List.mem_map_of_mem (f := toJson) hd)
      exact ih d hd (by omega)
    rw [toJson, listToJson_eq]
    exact Json.record_object <| (reads_one (Json.string_doc path) none).map Directory.mk
      |>.seq (reads_one (Json.list_map fun f (_ : f ∈ files) => f.reader_toJson) none) (by decide)
      |>.seq (reads_one (Json.list_map hinner) none) (show ∀ k ∈ ["directories"], k ∉ ["path", "files"] by decide)

theorem plain_toJson (d : Directory) (hd : ∀ f ∈ d.allFiles, f.sizeBytes < Nat.pow 2 64) :
    d.toJson.Plain d.toJson.depth := by
  induction d using nested with
  | mk path files directories ih =>
    have hfiles : ∀ v ∈ files.map FileNode.toJson, v.Plain v.depth := by
      intro v hv
      obtain ⟨f, hf, rfl⟩ := List.mem_map.1 hv
      exact (f.plain_toJson (hd f (List.mem_append_left _ hf))).of_depth_le (Nat.le_refl _)
    have hinner : ∀ v ∈ directories.map toJson, v.Plain v.depth := by
      intro v hv
      obtain ⟨d, hd', rfl⟩ := List.mem_map.1 hv
      exact ih d hd' fun f hf => hd f (List.mem_append_right _ (mem_allFilesOf.2 ⟨d, hd', hf⟩))
    rw [toJson, listToJson_eq]
    refine Value.plain_object_depth fun m hm => ?_
    obtain rfl | rfl | rfl : m = _ ∨ m = _ ∨ m = _ := by simpa using hm
    · exact .string path
    · exact Value.plain_list_depth hfiles
    · exact Value.plain_list_depth hinner

end Directory

namespace RepositoryTree

/-- Sizes and counts are numbers of sixty-four bits. -/
structure InRange (t : RepositoryTree) : Prop where
  sizes : ∀ f ∈ t.files, f.sizeBytes < Nat.pow 2 64
  counts : ∀ c ∈ t.counts, c.2 < Nat.pow 2 64

/-- Directories are read to the depth that brackets may have. -/
theorem reader_toJson (t : RepositoryTree) (hcounts : t.counts.Ordered Category.rank)
    (hdepth : t.toJson.depth ≤ Json.maxDepth) : reader t.toJson.doc = .ok t := by
  have hroot : t.root.toJson.depth ≤ Json.maxDepth := by
    simp only [toJson, Value.depth, Json.membersDepth] at hdepth
    omega
  exact Json.record_object <|
    (reads_one (Directory.readerWithin_toJson t.root hroot) none).map RepositoryTree.mk
      |>.seq (reads_one (Tally.reader_toJson choose_category hcounts) none) (by decide)

theorem plain_toJson (t : RepositoryTree) (ht : t.InRange) : t.toJson.Plain t.toJson.depth := by
  refine Value.plain_object_depth fun m hm => ?_
  obtain rfl | rfl : m = _ ∨ m = _ := by simpa using hm
  · exact t.root.plain_toJson ht.sizes
  · exact (Tally.plain_toJson Category.name ht.counts).of_depth_le (Nat.le_refl _)

end RepositoryTree

end ContractMigration
