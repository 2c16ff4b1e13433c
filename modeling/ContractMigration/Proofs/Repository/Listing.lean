import ContractMigration.Proofs.Text.Cuts
import ContractMigration.Repository.Tree
import Mathlib.Data.Nat.Find
import Mathlib.Data.String.Basic

/-! The listing that a tree is built from: the paths of a raw listing with plain slashes and none at their ends, each path
once, in order, with the smallest size that is given for it. -/

namespace ContractMigration.RepositoryTree

/-- What a raw path reads as: backslashes are slashes, and the slashes at both ends are left out. -/
def ReadsAs (raw path : String) : Prop :=
  ∃ front back, Path.slashed raw.toList = front ++ path.toList ++ back ∧ (∀ c ∈ front ++ back, c = '/') ∧
    path.toList.head? ≠ some '/' ∧ path.toList.getLast? ≠ some '/'

/-- A raw listing names a path with a size, and with no smaller one. -/
def Lists (entries : List (String × Nat)) (path : String) (size : Nat) : Prop :=
  (∃ raw, (raw, size) ∈ entries ∧ ReadsAs raw path) ∧ ∀ e ∈ entries, ReadsAs e.1 path → size ≤ e.2

variable {entries : List (String × Nat)} {raw path : String} {size : Nat}

theorem readsAs_iff : ReadsAs raw path ↔ String.ofList (cleanPath raw.toList) = path := by
  have hends : ∀ s : Option Char, s ≠ some '/' ↔ ∀ c ∈ s, (c == '/') = false := by
    intro s
    cases s <;> simp
  constructor
  · rintro ⟨front, back, hraw, hslash, hhead, hlast⟩
    have hclean : cleanPath raw.toList = path.toList := by
      rw [cleanPath, hraw]
      exact Text.trimWhere_append (fun c hc => beq_iff_eq.mpr (hslash c (List.mem_append_left _ hc)))
        (fun c hc => beq_iff_eq.mpr (hslash c (List.mem_append_right _ hc))) ((hends _).mp hhead) ((hends _).mp hlast)
    rw [hclean, String.ofList_toList]
  · rintro rfl
    obtain ⟨front, back, hraw, hfront, hback⟩ := Text.exists_trimmed (· == '/') (Path.slashed raw.toList)
    refine ⟨front, back, by rwa [String.toList_ofList], ?_, ?_, ?_⟩
    · intro c hc
      exact beq_iff_eq.mp ((List.mem_append.mp hc).elim (hfront c) (hback c))
    · rw [String.toList_ofList]
      exact (hends _).mpr Text.head?_trimWhere
    · rw [String.toList_ofList]
      exact (hends _).mpr Text.getLast?_trimWhere

theorem slashed_cleanPath (path : List Char) : Path.slashed (cleanPath path) = cleanPath path := by
  refine Text.replaceChar_of_notMem fun h => ?_
  obtain ⟨front, back, hpath, -, -⟩ := Text.exists_trimmed (· == '/') (Path.slashed path)
  refine Text.notMem_replaceChar (a := '\\') (b := '/') (by decide) path ?_
  change '\\' ∈ Path.slashed path
  rw [hpath]
  exact List.mem_append_left _ (List.mem_append_right _ h)

theorem parts_cleanPath (path : List Char) : Text.parts '/' (cleanPath path) = Text.parts '/' (Path.slashed path) :=
  Text.parts_trimWhere '/' (Path.slashed path)

/-- The category of a file is that of its raw path. -/
theorem ofPath_cleanPath (raw : String) : Category.ofPath (String.ofList (cleanPath raw.toList)) = .ofPath raw := by
  have hparts : Text.parts '/' (Path.slashed (cleanPath raw.toList)) = Text.parts '/' (Path.slashed raw.toList) := by
    rw [slashed_cleanPath, parts_cleanPath]
  rw [Category.ofPath, String.toList_ofList, Category.ofPath, Category.ofPathChars, Category.ofPathChars]
  unfold Text.parts at hparts
  rw [hparts]

/-! ### Order -/

theorem entryLe_iff {a b : String × Nat} : entryLe a b = true ↔ a.1 < b.1 ∨ a.1 = b.1 ∧ a.2 ≤ b.2 := by
  unfold entryLe
  split_ifs with h
  · simp [h]
  · simp [h]

/-- Entries in order, with the smaller sizes of a path first. -/
abbrev Sorted (l : List (String × Nat)) : Prop := l.Pairwise fun a b => entryLe a b = true

theorem sorted_mergeSort (l : List (String × Nat)) : Sorted (l.mergeSort entryLe) := by
  refine List.pairwise_mergeSort (fun a b c hab hbc => ?_) (fun a b => ?_) l
  · rw [entryLe_iff] at *
    grind
  · rw [Bool.or_eq_true, entryLe_iff, entryLe_iff]
    grind

variable {a : String × Nat} {l : List (String × Nat)}

/-- In order, the first entry of a path stands for all that follow it. -/
theorem firstOfEach_cons (h : Sorted (a :: l)) (hl : (firstOfEach l).Pairwise fun x y => x.1 < y.1)
    (hsub : firstOfEach l ⊆ l) : firstOfEach (a :: l) = a :: (firstOfEach l).filter fun x => x.1 ≠ a.1 := by
  have hle := (List.pairwise_cons.mp h).1
  rw [firstOfEach]
  split
  · next hnil => rw [hnil, List.filter_nil]
  · next b rest hcons =>
    rw [hcons] at hl hsub
    obtain ⟨hb, -⟩ := List.pairwise_cons.mp hl
    -- what follows is behind `b`, and `b` is `a` or behind it
    have hab := entryLe_iff.mp (hle b (hsub List.mem_cons_self))
    have hrest : ∀ x ∈ rest, x.1 ≠ a.1 := by grind
    have hkeep : rest.filter (fun x => x.1 ≠ a.1) = rest := List.filter_eq_self.mpr (by simpa using hrest)
    rw [hcons, List.filter_cons, hkeep]
    by_cases heq : a.1 = b.1
    · simp [heq]
    · simp [heq, Ne.symm heq]

/-- Of a listing in order, the paths ascend that are kept, and an entry is kept exactly if no other one gives its path a
smaller size. -/
theorem firstOfEach_spec (h : Sorted l) : (firstOfEach l).Pairwise (fun x y => x.1 < y.1) ∧
    ∀ x, x ∈ firstOfEach l ↔ x ∈ l ∧ ∀ y ∈ l, y.1 = x.1 → x.2 ≤ y.2 := by
  induction l with
  | nil => simp [firstOfEach]
  | cons a l ih =>
    obtain ⟨hle, hl⟩ := List.pairwise_cons.mp h
    obtain ⟨hasc, hmem⟩ := ih hl
    simp only [entryLe_iff] at hle
    rw [firstOfEach_cons h hasc fun x hx => ((hmem x).mp hx).1]
    constructor
    · refine List.pairwise_cons.mpr ⟨fun x hx => ?_, hasc.filter _⟩
      obtain ⟨hx, hne⟩ := List.mem_filter.mp hx
      have hax := hle x ((hmem x).mp hx).1
      grind
    · intro x
      simp only [List.mem_cons, List.mem_filter, hmem]
      grind

/-! ### The cleaned listing -/

theorem ascending_listing (entries : List (String × Nat)) : (listing entries).Pairwise fun x y => x.1 < y.1 :=
  (firstOfEach_spec (sorted_mergeSort _)).1

/-- An entry is listed exactly if it has the smallest size of a path that is named and not empty. -/
theorem mem_listing : (path, size) ∈ listing entries ↔ path ≠ "" ∧ Lists entries path size := by
  rw [listing, (firstOfEach_spec (sorted_mergeSort _)).2]
  simp only [List.mem_mergeSort, List.mem_filter, List.mem_map, Lists, readsAs_iff, bne_iff_ne, Prod.exists,
    Prod.forall, Prod.mk.injEq]
  constructor
  · rintro ⟨⟨⟨raw, n, hmem, rfl, rfl⟩, hne⟩, hmin⟩
    exact ⟨hne, ⟨raw, hmem, rfl⟩, fun raw' n' hmem' heq => hmin _ n' ⟨⟨raw', n', hmem', rfl, rfl⟩, by rwa [heq]⟩ heq⟩
  · rintro ⟨hne, ⟨raw, hmem, hraw⟩, hmin⟩
    refine ⟨⟨⟨raw, size, hmem, hraw, rfl⟩, hne⟩, ?_⟩
    rintro _ _ ⟨⟨raw', n', hmem', rfl, rfl⟩, -⟩ heq
    exact hmin raw' n' hmem' heq

/-- Every path that is named, and is not empty, is listed with some size. -/
theorem exists_mem_listing {e : String × Nat} (he : e ∈ entries) (hread : ReadsAs e.1 path) (hne : path ≠ "") :
    ∃ size, (path, size) ∈ listing entries := by
  have hsizes : ∃ size raw, (raw, size) ∈ entries ∧ ReadsAs raw path := ⟨e.2, e.1, he, hread⟩
  classical
  exact ⟨Nat.find hsizes, mem_listing.mpr ⟨hne, Nat.find_spec hsizes, fun e he h => Nat.find_min' hsizes ⟨e.1, he, h⟩⟩⟩

end ContractMigration.RepositoryTree
