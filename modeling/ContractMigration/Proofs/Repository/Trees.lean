import ContractMigration.Proofs.Repository.Listing
import ContractMigration.Proofs.Tally
import Mathlib.Data.List.Nodup

/-! The tree of a listing. Putting a file into a tree of directories adds this file and no other one, and keeps files and
directories where their paths say. So a tree holds every path of its listing exactly once, with its smallest size, each in
the directory of its path; no directory is empty or there twice; and the counts are those of the files. -/

namespace ContractMigration

open List (Perm)

theorem Category.rank_injective : Function.Injective Category.rank := by
  intro a b h
  cases a <;> cases b <;> first | rfl | cases h

namespace Directory

/-- One directory lies in another one, or is that one. -/
inductive Within : Directory → Directory → Prop
  | self (d : Directory) : Within d d
  | inside {d inner e : Directory} (h : inner ∈ d.directories) (he : Within inner e) : Within d e

/-- `dir` is a path up to its last slash, and empty where there is none. -/
def Encloses (dir path : String) : Prop :=
  ('/' ∉ path.toList ∧ dir = "") ∨ ∃ name, '/' ∉ name ∧ path.toList = dir.toList ++ '/' :: name

/-- A directory in order: what is in it lies where its path says, no directory is in it twice, and none without a file. A
listing may give a file the path of a directory; then both are there. -/
structure InOrder (d : Directory) : Prop where
  files : ∀ f ∈ d.files, Encloses d.path f.path
  directories : ∀ e ∈ d.directories, Encloses d.path e.path
  distinct : (d.directories.map path).Nodup
  inhabited : ∀ e ∈ d.directories, e.allFiles ≠ []

variable {d e : Directory} {ds : List Directory} {p : String} {f : Directory → Directory} {file : FileNode}

theorem forall_within_iff {P : Directory → Prop} :
    (∀ e, d.Within e → P e) ↔ P d ∧ ∀ inner ∈ d.directories, ∀ e, inner.Within e → P e := by
  constructor
  · exact fun h => ⟨h d (.self d), fun inner hinner e he => h e (.inside hinner he)⟩
  · rintro ⟨hd, hinner⟩ e (_ | ⟨h, he⟩)
    · exact hd
    · exact hinner _ h e he

/-- The files that are visited are those of the directory and of all directories in it. -/
theorem mem_allFiles : file ∈ d.allFiles ↔ ∃ e, d.Within e ∧ file ∈ e.files := by
  induction d using nested with
  | mk path files directories ih =>
    rw [allFiles, List.mem_append, mem_allFilesOf]
    constructor
    · rintro (h | ⟨inner, hinner, h⟩)
      · exact ⟨_, .self _, h⟩
      · obtain ⟨e, he, hfile⟩ := (ih inner hinner).mp h
        exact ⟨e, .inside hinner he, hfile⟩
    · rintro ⟨e, _ | ⟨hinner, he⟩, hfile⟩
      · exact .inl hfile
      · exact .inr ⟨_, hinner, (ih _ hinner).mpr ⟨e, he, hfile⟩⟩

/-! ### Changing one directory -/

/-- A directory after a change was there before, or it comes from one of that path, perhaps a new one. -/
theorem mem_update (h : e ∈ update p f ds) : e ∈ ds ∨ ∃ d, (d ∈ ds ∨ d = empty p) ∧ d.path = p ∧ e = f d := by
  induction ds with
  | nil => exact .inr ⟨empty p, .inr rfl, rfl, List.mem_singleton.mp h⟩
  | cons d ds ih =>
    rw [update] at h
    split_ifs at h with hd
    · rcases List.mem_cons.mp h with rfl | h
      · exact .inr ⟨d, .inl List.mem_cons_self, hd, rfl⟩
      · exact .inl (List.mem_cons_of_mem d h)
    · rcases List.mem_cons.mp h with rfl | h
      · exact .inl List.mem_cons_self
      · refine (ih h).imp (List.mem_cons_of_mem d) ?_
        rintro ⟨c, hc, hrest⟩
        exact ⟨c, hc.imp_left (List.mem_cons_of_mem d), hrest⟩

/-- A change that keeps paths adds no path but its own, and that at the end. -/
theorem paths_update (hf : ∀ d, (f d).path = d.path) :
    (update p f ds).map path = if p ∈ ds.map path then ds.map path else ds.map path ++ [p] := by
  induction ds with
  | nil => simp only [update, List.map_cons, hf]; rfl
  | cons d ds ih =>
    rw [update]
    by_cases hd : d.path = p
    · simp [hd, hf]
    · rw [if_neg hd, List.map_cons, ih, List.map_cons]
      simp only [List.mem_cons, Ne.symm hd, false_or]
      split_ifs <;> rfl

theorem nodup_paths_update (hf : ∀ d, (f d).path = d.path) (h : (ds.map path).Nodup) : ((update p f ds).map path).Nodup := by
  rw [paths_update hf]
  split_ifs with hp
  · exact h
  · exact List.Nodup.append h (List.nodup_singleton p) (List.disjoint_singleton.mpr hp)

theorem allFilesOf_update (hf : ∀ d, (f d).allFiles.Perm (file :: d.allFiles)) :
    (allFilesOf (update p f ds)).Perm (file :: allFilesOf ds) := by
  induction ds with
  | nil => simpa [update, allFilesOf, allFiles, empty] using hf (empty p)
  | cons d ds ih =>
    rw [update]
    split_ifs with hd
    · exact (hf d).append_right _
    · exact (ih.append_left _).trans List.perm_middle

/-! ### Putting in a file -/

@[simp] theorem path_insert (file : FileNode) (dirs : List (List Char)) (base : List Char) (d : Directory) :
    (insert file dirs base d).path = d.path := by
  cases d
  cases dirs <;> rfl

/-- One file more, and no other one. -/
theorem allFiles_insert (file : FileNode) (dirs : List (List Char)) (base : List Char) (d : Directory) :
    (insert file dirs base d).allFiles.Perm (file :: d.allFiles) := by
  induction dirs generalizing base d with
  | nil =>
    obtain ⟨p, fs, ds⟩ := d
    simp only [insert, allFiles, List.append_assoc]
    exact List.perm_middle
  | cons name dirs ih =>
    obtain ⟨p, fs, ds⟩ := d
    rw [insert, allFiles, allFiles]
    exact ((allFilesOf_update fun d => ih (child base name) d).append_left fs).trans List.perm_middle

theorem inOrder_empty (p : String) : ∀ e, (empty p).Within e → e.InOrder :=
  forall_within_iff.mpr ⟨⟨nofun, nofun, List.nodup_nil, nofun⟩, nofun⟩

theorem encloses_child {base name : List Char} (h : '/' ∉ name) : Encloses (String.ofList base) (String.ofList (child base name)) := by
  rw [Encloses, String.toList_ofList, String.toList_ofList, child]
  cases base with
  | nil => exact .inl ⟨h, rfl⟩
  | cons c base => exact .inr ⟨name, h, rfl⟩

/-- A file that is put where its path says leaves everything in order. -/
theorem inOrder_insert {file : FileNode} {dirs : List (List Char)} {name base : List Char} (hdirs : ∀ s ∈ dirs, '/' ∉ s)
    (hname : '/' ∉ name) (hfile : file.path = String.ofList (child (dirs.foldl child base) name))
    (hbase : d.path = String.ofList base) (hd : ∀ e, d.Within e → e.InOrder) :
    ∀ e, (insert file dirs base d).Within e → e.InOrder := by
  induction dirs generalizing base d with
  | nil =>
    obtain ⟨p, fs, ds⟩ := d
    obtain rfl : p = String.ofList base := hbase
    obtain ⟨hself, hinner⟩ := forall_within_iff.mp hd
    refine forall_within_iff.mpr ⟨⟨?_, hself.directories, hself.distinct, hself.inhabited⟩, hinner⟩
    intro g hg
    rcases List.mem_append.mp hg with hg | hg
    · exact hself.files g hg
    · rw [List.mem_singleton.mp hg, hfile]
      exact encloses_child hname
  | cons s dirs ih =>
    obtain ⟨p, fs, ds⟩ := d
    obtain rfl : p = String.ofList base := hbase
    obtain ⟨hs, hdirs⟩ := List.forall_mem_cons.mp hdirs
    obtain ⟨hself, hinner⟩ := forall_within_iff.mp hd
    have hpath : ∀ d, (insert file dirs (child base s) d).path = d.path := path_insert file dirs (child base s)
    refine forall_within_iff.mpr ⟨⟨hself.files, ?_, nodup_paths_update hpath hself.distinct, ?_⟩, ?_⟩
    · intro e he
      rcases mem_update he with he | ⟨d, -, hd, rfl⟩
      · exact hself.directories e he
      · rw [hpath, hd]
        exact encloses_child hs
    · intro e he
      rcases mem_update he with he | ⟨d, -, -, rfl⟩
      · exact hself.inhabited e he
      · exact fun hnil => List.not_perm_nil_cons _ _ (hnil ▸ allFiles_insert file dirs (child base s) d)
    · intro e he
      rcases mem_update he with he | ⟨d, hd, hinside, rfl⟩
      · exact hinner e he
      · refine ih hdirs hfile hinside ?_
        rcases hd with hd | rfl
        · exact hinner d hd
        · exact inOrder_empty _

/-- Directories that are one inside the other have the path that their names spell. -/
theorem foldl_child (dirs : List (List Char)) {base : List Char} (h : base ≠ []) :
    dirs.foldl child base = Text.joinWith ['/'] (base :: dirs) := by
  induction dirs generalizing base with
  | nil => rfl
  | cons s dirs ih =>
    have hchild : child base s = base ++ ['/'] ++ s := by
      rw [child, if_neg (by simpa using h), List.append_assoc, List.singleton_append]
    rw [List.foldl_cons, ih (by simp [hchild]), hchild, Text.joinWith_append_cons]

/-- A path that does not begin with a slash is spelled by its directories and its last name. -/
theorem child_of_segments {path name : List Char} {dirs : List (List Char)} (h : Text.segments '/' path = dirs ++ [name])
    (hne : path ≠ []) (hhead : path.head? ≠ some '/') : child (dirs.foldl child []) name = path := by
  have hjoin : Text.joinWith ['/'] (dirs ++ [name]) = path := by rw [← h, Text.joinWith_segments]
  cases hcons : dirs ++ [name] with
  | nil => simp at hcons
  | cons first rest =>
    rw [hcons] at hjoin
    have hfirst : first ≠ [] := by
      rintro rfl
      cases rest with
      | nil => exact hne hjoin.symm
      | cons s rest => exact hhead (by rw [← hjoin]; rfl)
    calc child (dirs.foldl child []) name
        = (dirs ++ [name]).foldl child [] := by rw [List.foldl_concat]
      _ = rest.foldl child first := by rw [hcons]; rfl
      _ = path := by rw [foldl_child rest hfirst, hjoin]

end Directory

namespace RepositoryTree

open Directory

/-! ### Building the tree -/

variable {entries flat : List (String × Nat)} {root : Directory}

theorem name_nodeOf {path : String} {size : Nat} {dirs : List (List Char)} {name : List Char}
    (h : Text.segments '/' path.toList = dirs ++ [name]) : (nodeOf path size).name = String.ofList name := by
  rw [nodeOf, h, List.getLast?_concat, Option.getD_some]

/-- A listed file is put where its path says. -/
theorem inOrder_place {e : String × Nat} (hne : e.1 ≠ "") (hhead : e.1.toList.head? ≠ some '/') (hroot : root.path = "")
    (h : ∀ d, root.Within d → d.InOrder) : ∀ d, (place root e).Within d → d.InOrder := by
  obtain ⟨dirs, name, hsegments⟩ := Text.exists_segments_eq_concat '/' e.1.toList
  have hslash : ∀ s ∈ dirs ++ [name], '/' ∉ s := fun s hs => Text.notMem_of_mem_segments (hsegments ▸ hs)
  have hpath : (nodeOf e.1 e.2).path = String.ofList (child (dirs.foldl child []) name) := by
    rw [child_of_segments hsegments (by simpa using hne) hhead, String.ofList_toList]
    rfl
  rw [place, hsegments, List.dropLast_concat]
  exact inOrder_insert (fun s hs => hslash s (List.mem_append_left _ hs)) (hslash name List.mem_concat_self) hpath hroot h

theorem inOrder_foldl (hne : ∀ e ∈ flat, e.1 ≠ "" ∧ e.1.toList.head? ≠ some '/') (hroot : root.path = "")
    (h : ∀ d, root.Within d → d.InOrder) :
    (flat.foldl place root).path = "" ∧ ∀ d, (flat.foldl place root).Within d → d.InOrder := by
  induction flat generalizing root with
  | nil => exact ⟨hroot, h⟩
  | cons e flat ih =>
    obtain ⟨he, hflat⟩ := List.forall_mem_cons.mp hne
    exact ih hflat ((path_insert ..).trans hroot) (inOrder_place he.1 he.2 hroot h)

theorem allFiles_foldl (flat : List (String × Nat)) (root : Directory) :
    (flat.foldl place root).allFiles.Perm (flat.map (fun e => nodeOf e.1 e.2) ++ root.allFiles) := by
  induction flat generalizing root with
  | nil => exact Perm.refl _
  | cons e flat ih =>
    refine (ih (place root e)).trans ?_
    exact ((allFiles_insert ..).append_left _).trans List.perm_middle

/-- The files of a tree are those of its listing. -/
theorem files_ofEntries (entries : List (String × Nat)) :
    (ofEntries entries).files.Perm ((listing entries).map fun e => nodeOf e.1 e.2) := by
  have h := allFiles_foldl (listing entries) (Directory.empty "")
  rwa [show (Directory.empty "").allFiles = [] from rfl, List.append_nil] at h

theorem mem_files {f : FileNode} : f ∈ (ofEntries entries).files ↔
    ∃ path size, path ≠ "" ∧ Lists entries path size ∧ nodeOf path size = f := by
  simp only [(files_ofEntries entries).mem_iff, List.mem_map, Prod.exists, mem_listing, and_assoc]

/-- The files of a tree have the paths that are named and not empty. -/
theorem exists_file_iff {path : String} :
    (∃ f ∈ (ofEntries entries).files, f.path = path) ↔ path ≠ "" ∧ ∃ e ∈ entries, ReadsAs e.1 path := by
  constructor
  · rintro ⟨f, hf, rfl⟩
    obtain ⟨path, size, hne, ⟨⟨raw, hmem, hread⟩, -⟩, rfl⟩ := mem_files.mp hf
    exact ⟨hne, (raw, size), hmem, hread⟩
  · rintro ⟨hne, e, he, hread⟩
    obtain ⟨size, hmem⟩ := exists_mem_listing he hread hne
    exact ⟨nodeOf path size, mem_files.mpr ⟨path, size, hne, (mem_listing.mp hmem).2, rfl⟩, rfl⟩

theorem category_of_mem_files {f : FileNode} (hf : f ∈ (ofEntries entries).files) : f.category = .ofPath f.path := by
  obtain ⟨path, size, -, -, rfl⟩ := mem_files.mp hf
  rfl

/-! ### What a tree says -/

/-- A tree is that of a raw listing. It has a file for every path that is named and not empty, and only such files; each
path once, with its smallest size, its last name and its category; each file in the directory of its path. The counts and
the files with contracts are those of all files. -/
structure Holds (entries : List (String × Nat)) (t : RepositoryTree) : Prop where
  complete : ∀ e ∈ entries, ∃ path, (∀ other, ReadsAs e.1 other ↔ other = path) ∧ (path = "" ∨ ∃ f ∈ t.files, f.path = path)
  sound : ∀ f ∈ t.files, f.path ≠ "" ∧ Lists entries f.path f.sizeBytes
  once : (t.files.map FileNode.path).Nodup
  names : ∀ f ∈ t.files, '/' ∉ f.name.toList ∧ (f.path = f.name ∨ ∃ dir, f.path = dir ++ "/" ++ f.name)
  categories : ∀ f ∈ t.files, f.category = .ofPath f.path
  visited : ∀ f, f ∈ t.files ↔ ∃ d, t.root.Within d ∧ f ∈ d.files
  root : t.root.path = ""
  inOrder : ∀ d, t.root.Within d → d.InOrder
  counts : ∀ c n, t.counts.lookup c = some n ↔ 0 < n ∧ n = t.files.countP fun f => f.category = c
  total : t.totalFiles = t.files.length
  contracts : ∀ f, f ∈ t.contractFiles ↔ f ∈ t.files ∧ f.category = .contract
  ascending : t.contractFiles.Pairwise fun f g => f.path < g.path

theorem nodup_paths_files (entries : List (String × Nat)) : ((ofEntries entries).files.map FileNode.path).Nodup := by
  rw [((files_ofEntries entries).map FileNode.path).nodup_iff, List.map_map]
  exact List.pairwise_map.mpr ((ascending_listing entries).imp ne_of_lt)

theorem mem_contractFiles {t : RepositoryTree} {f : FileNode} :
    f ∈ t.contractFiles ↔ f ∈ t.files ∧ f.category = .contract := by
  rw [contractFiles, List.mem_mergeSort, List.mem_filter, decide_eq_true_iff]

/-- The files with contracts have the paths that are named and in the category of contracts. -/
theorem exists_contractFile_iff {path : String} : (∃ f ∈ (ofEntries entries).contractFiles, f.path = path) ↔
    Category.ofPath path = .contract ∧ ∃ e ∈ entries, ReadsAs e.1 path := by
  simp only [mem_contractFiles]
  constructor
  · rintro ⟨f, ⟨hf, hcategory⟩, rfl⟩
    rw [← category_of_mem_files hf]
    exact ⟨hcategory, (exists_file_iff.mp ⟨f, hf, rfl⟩).2⟩
  · rintro ⟨hcategory, hread⟩
    have hne : path ≠ "" := by
      rintro rfl
      exact absurd hcategory (by decide)
    obtain ⟨f, hf, rfl⟩ := exists_file_iff.mpr ⟨hne, hread⟩
    exact ⟨f, ⟨hf, (category_of_mem_files hf).trans hcategory⟩, rfl⟩

theorem ascending_contractFiles {t : RepositoryTree} (h : (t.files.map FileNode.path).Nodup) :
    t.contractFiles.Pairwise fun f g => f.path < g.path := by
  have hle : t.contractFiles.Pairwise fun f g => decide (f.path ≤ g.path) = true :=
    List.pairwise_mergeSort (fun a b c hab hbc => by simp only [decide_eq_true_eq] at *; exact le_trans hab hbc)
      (fun a b => by simpa using le_total a.path b.path) _
  have hne : (t.contractFiles.map FileNode.path).Nodup :=
    ((List.mergeSort_perm _ _).map FileNode.path).nodup_iff.mpr (h.sublist (List.filter_sublist.map FileNode.path))
  exact (hle.and (List.pairwise_map.mp hne)).imp fun ⟨hle, hne⟩ => lt_of_le_of_ne (of_decide_eq_true hle) hne

theorem categories_ofEntries (entries : List (String × Nat)) :
    ((ofEntries entries).files.map FileNode.category).Perm ((listing entries).map fun e => .ofPath e.1) := by
  have h := (files_ofEntries entries).map FileNode.category
  rwa [List.map_map] at h

theorem counts_ofEntries {c : Category} {n : Nat} : (ofEntries entries).counts.lookup c = some n ↔
    0 < n ∧ n = (ofEntries entries).files.countP fun f => f.category = c := by
  have hcount : ((listing entries).map fun e => Category.ofPath e.1).count c =
      (ofEntries entries).files.countP fun f => f.category = c := by
    rw [← (categories_ofEntries entries).count_eq, List.count, List.countP_map]
    rfl
  rw [← hcount]
  exact Tally.lookup_ofList_eq_some_iff Category.rank_injective

theorem holds_ofEntries (entries : List (String × Nat)) : Holds entries (ofEntries entries) := by
  have hlisted : ∀ e ∈ listing entries, e.1 ≠ "" ∧ e.1.toList.head? ≠ some '/' := by
    intro e he
    obtain ⟨hne, ⟨raw, -, -, -, -, -, hhead, -⟩, -⟩ := mem_listing.mp he
    exact ⟨hne, hhead⟩
  obtain ⟨hroot, hinOrder⟩ : (ofEntries entries).root.path = "" ∧ ∀ d, (ofEntries entries).root.Within d → d.InOrder :=
    inOrder_foldl hlisted rfl (inOrder_empty "")
  refine ⟨?complete, ?sound, nodup_paths_files entries, ?names, fun f => category_of_mem_files, fun f => mem_allFiles, hroot,
    hinOrder, ?counts, ?total, fun f => mem_contractFiles, ascending_contractFiles (nodup_paths_files entries)⟩
  case complete =>
    intro e he
    refine ⟨_, fun other => readsAs_iff.trans eq_comm, ?_⟩
    exact or_iff_not_imp_left.mpr fun hne => exists_file_iff.mpr ⟨hne, e, he, readsAs_iff.mpr rfl⟩
  case sound =>
    intro f hf
    obtain ⟨path, size, hne, hlists, rfl⟩ := mem_files.mp hf
    exact ⟨hne, hlists⟩
  case names =>
    intro f hf
    obtain ⟨path, size, -, -, rfl⟩ := mem_files.mp hf
    obtain ⟨dirs, name, hsegments⟩ := Text.exists_segments_eq_concat '/' path.toList
    obtain ⟨hslash, hname⟩ := Text.getLast?_segments.mp (by rw [hsegments, List.getLast?_concat])
    rw [name_nodeOf hsegments, String.toList_ofList]
    refine ⟨hslash, hname.imp (fun h => ?_) fun ⟨front, h⟩ => ⟨String.ofList front, ?_⟩⟩
    · rw [← h, String.ofList_toList]
      rfl
    · exact String.toList_inj.mp (by simp [nodeOf, h])
  case counts =>
    intro c n
    exact counts_ofEntries
  case total =>
    rw [totalFiles, ofEntries, Tally.total_ofList, List.length_map]
    exact ((files_ofEntries entries).length_eq.trans (List.length_map _)).symm

end RepositoryTree

end ContractMigration
