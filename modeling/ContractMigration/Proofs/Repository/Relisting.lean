import ContractMigration.Proofs.Repository.Trees
import Mathlib.Data.List.Sort
import Mathlib.Logic.Relation

/-! Listings of the same files. A tree is determined by the paths that its listing names and the smallest size of each, so
a listing may be written in another order, with backslashes, with more slashes at the ends of paths, with entries that are
only slashes, and with larger sizes for paths that it has already. The files of a tree are a listing of it as well. -/

namespace ContractMigration.RepositoryTree

/-- The second path is the first one with some of its slashes written as backslashes. -/
def Backslashed (raw raw' : String) : Prop :=
  List.Forall₂ (fun c c' => c' = c ∨ c = '/' ∧ c' = '\\') raw.toList raw'.toList

/-- The second listing is the first one with a change that says nothing new of the files. -/
inductive Restates : List (String × Nat) → List (String × Nat) → Prop
  | permuted {l l' : List (String × Nat)} (h : l.Perm l') : Restates l l'
  | backslashed {raw raw' : String} (h : Backslashed raw raw') (size : Nat) (l : List (String × Nat)) :
      Restates ((raw, size) :: l) ((raw', size) :: l)
  | slashed {front back : String} (hfront : ∀ c ∈ front.toList, c = '/') (hback : ∀ c ∈ back.toList, c = '/')
      (raw : String) (size : Nat) (l : List (String × Nat)) :
      Restates ((raw, size) :: l) ((front ++ raw ++ back, size) :: l)
  | nameless {raw : String} (h : ∀ c ∈ raw.toList, c = '/') (size : Nat) (l : List (String × Nat)) :
      Restates l ((raw, size) :: l)
  | repeated {raw : String} {size larger : Nat} {l : List (String × Nat)} (h : (raw, size) ∈ l) (hle : size ≤ larger) :
      Restates l ((raw, larger) :: l)

variable {l l' entries : List (String × Nat)} {raw raw' path other : String} {size : Nat}

/-! ### Paths -/

theorem readsAs_unique (h : ReadsAs raw path) (h' : ReadsAs raw other) : path = other :=
  (readsAs_iff.mp h).symm.trans (readsAs_iff.mp h')

/-- What a raw path reads as reads as itself. -/
theorem readsAs_self (h : ReadsAs raw path) : ReadsAs path path := by
  have hslashed : Path.slashed path.toList = path.toList := by
    rw [← readsAs_iff.mp h, String.toList_ofList, slashed_cleanPath]
  obtain ⟨-, -, -, -, hhead, hlast⟩ := h
  exact ⟨[], [], by simpa using hslashed, nofun, hhead, hlast⟩

theorem readsAs_congr (h : cleanPath raw'.toList = cleanPath raw.toList) : ReadsAs raw' path ↔ ReadsAs raw path := by
  rw [readsAs_iff, readsAs_iff, h]

theorem cleanPath_backslashed (h : Backslashed raw raw') : cleanPath raw'.toList = cleanPath raw.toList := by
  have hslashed : Path.slashed raw'.toList = Path.slashed raw.toList := by
    rw [Backslashed] at h
    generalize raw.toList = s, raw'.toList = s' at h ⊢
    induction h with
    | nil => rfl
    | cons hc _ ih =>
      rcases hc with rfl | ⟨rfl, rfl⟩
      · exact congrArg (List.cons _) ih
      · exact congrArg (List.cons '/') ih
  rw [cleanPath, hslashed, cleanPath]

theorem slashed_of_slashes {s : List Char} (h : ∀ c ∈ s, c = '/') : Path.slashed s = s :=
  Text.replaceChar_of_notMem fun hmem => absurd (h '\\' hmem) (by decide)

theorem cleanPath_between {front back : List Char} (hfront : ∀ c ∈ front, c = '/') (hback : ∀ c ∈ back, c = '/')
    (s : List Char) : cleanPath (front ++ s ++ back) = cleanPath s := by
  have hslashed : Path.slashed (front ++ s ++ back) = front ++ Path.slashed s ++ back := by
    rw [Path.slashed, Text.replaceChar_append, Text.replaceChar_append]
    exact congrArg₂ (· ++ _ ++ ·) (slashed_of_slashes hfront) (slashed_of_slashes hback)
  rw [cleanPath, hslashed, cleanPath]
  exact Text.trimWhere_between (by simpa using hfront) (by simpa using hback) _

/-- A path of slashes alone reads as the empty path. -/
theorem eq_empty_of_slashes (h : ∀ c ∈ raw.toList, c = '/') (hread : ReadsAs raw path) : path = "" := by
  have hclean : cleanPath raw.toList = [] := by
    rw [← List.append_nil raw.toList, ← List.append_nil raw.toList, cleanPath_between h (by simp)]
    rfl
  rw [← readsAs_iff.mp hread, hclean]

/-! ### Covering -/

/-- A listing mentions a path with a size. -/
def Mentions (entries : List (String × Nat)) (path : String) (size : Nat) : Prop :=
  ∃ raw, (raw, size) ∈ entries ∧ ReadsAs raw path

/-- Whatever path `l'` mentions, `l` mentions with a size that is not larger. -/
def Covers (l l' : List (String × Nat)) : Prop :=
  ∀ path size, path ≠ "" → Mentions l' path size → ∃ smaller ≤ size, Mentions l path smaller

theorem lists_iff : Lists entries path size ↔ Mentions entries path size ∧ ∀ n, Mentions entries path n → size ≤ n := by
  refine and_congr_right fun _ => ⟨?_, fun h e he hread => h e.2 ⟨e.1, he, hread⟩⟩
  rintro h n ⟨raw, hmem, hread⟩
  exact h _ hmem hread

theorem Covers.of_subset (h : l' ⊆ l) : Covers l l' := by
  rintro path size - ⟨raw, hmem, hread⟩
  exact ⟨size, Nat.le_refl size, raw, h hmem, hread⟩

/-- An entry with a path that reads the same may stand in place of another one. -/
theorem Covers.of_cleanPath (h : cleanPath raw'.toList = cleanPath raw.toList) (size : Nat) (l : List (String × Nat)) :
    Covers ((raw, size) :: l) ((raw', size) :: l) := by
  rintro path n - ⟨other, hmem, hread⟩
  rcases List.mem_cons.mp hmem with heq | hmem
  · obtain ⟨rfl, rfl⟩ := Prod.mk.inj heq
    exact ⟨n, Nat.le_refl n, raw, List.mem_cons_self, (readsAs_congr h).mp hread⟩
  · exact ⟨n, Nat.le_refl n, other, List.mem_cons_of_mem _ hmem, hread⟩

theorem Covers.lists (h : Covers l l') (h' : Covers l' l) (hne : path ≠ "") (hlists : Lists l path size) :
    Lists l' path size := by
  rw [lists_iff] at hlists ⊢
  obtain ⟨hmention, hleast⟩ := hlists
  have hleast' : ∀ n, Mentions l' path n → size ≤ n := by
    intro n hn
    obtain ⟨smaller, hle, hsmaller⟩ := h path n hne hn
    exact (hleast smaller hsmaller).trans hle
  obtain ⟨smaller, hle, hsmaller⟩ := h' path size hne hmention
  obtain rfl := Nat.le_antisymm hle (hleast' smaller hsmaller)
  exact ⟨hsmaller, hleast'⟩

/-- A change covers what was there before, and is covered by it. -/
theorem Restates.covers (h : Restates l l') : Covers l l' ∧ Covers l' l := by
  cases h with
  | permuted h => exact ⟨.of_subset h.symm.subset, .of_subset h.subset⟩
  | backslashed h size l =>
    exact ⟨.of_cleanPath (cleanPath_backslashed h) size l, .of_cleanPath (cleanPath_backslashed h).symm size l⟩
  | @slashed front back hfront hback raw size l =>
    have hclean : cleanPath (front ++ raw ++ back).toList = cleanPath raw.toList := by
      rw [String.toList_append, String.toList_append, cleanPath_between hfront hback]
    exact ⟨.of_cleanPath hclean size l, .of_cleanPath hclean.symm size l⟩
  | nameless h size =>
    refine ⟨?_, .of_subset (List.subset_cons_self _ l)⟩
    rintro path n hne ⟨other, hmem, hread⟩
    rcases List.mem_cons.mp hmem with heq | hmem
    · obtain ⟨rfl, -⟩ := Prod.mk.inj heq
      exact absurd (eq_empty_of_slashes h hread) hne
    · exact ⟨n, Nat.le_refl n, other, hmem, hread⟩
  | @repeated raw size larger _ h hle =>
    refine ⟨?_, .of_subset (List.subset_cons_self _ l)⟩
    rintro path n - ⟨other, hmem, hread⟩
    rcases List.mem_cons.mp hmem with heq | hmem
    · obtain ⟨rfl, rfl⟩ := Prod.mk.inj heq
      exact ⟨size, hle, other, h, hread⟩
    · exact ⟨n, Nat.le_refl n, other, hmem, hread⟩

/-! ### Equal trees -/

/-- Trees are equal exactly if their listings name the same paths with the same smallest sizes. -/
theorem ofEntries_eq_iff : ofEntries l = ofEntries l' ↔
    ∀ path size, path ≠ "" → (Lists l path size ↔ Lists l' path size) := by
  constructor
  · intro h path size hne
    have hlists : ∀ {entries}, Lists entries path size ↔ nodeOf path size ∈ (ofEntries entries).files := by
      intro entries
      rw [mem_files]
      constructor
      · exact fun h => ⟨path, size, hne, h, rfl⟩
      · rintro ⟨path', size', -, h, heq⟩
        obtain ⟨rfl, -, rfl, -⟩ := FileNode.mk.inj heq
        exact h
    rw [hlists, hlists, h]
  · intro h
    have hlisting : listing l = listing l' := by
      have : Std.Irrefl fun x y : String × Nat => x.1 < y.1 := ⟨fun x => lt_irrefl x.1⟩
      have : Std.Antisymm fun x y : String × Nat => x.1 < y.1 := ⟨fun x y hxy hyx => absurd (hxy.trans hyx) (lt_irrefl _)⟩
      refine List.Pairwise.eq_of_mem_iff (ascending_listing l) (ascending_listing l') ?_
      rintro ⟨path, size⟩
      rw [mem_listing, mem_listing]
      exact and_congr_right (h path size)
    rw [ofEntries, ofEntries, hlisting]

theorem ofEntries_eq_of_covers (h : Covers l l') (h' : Covers l' l) : ofEntries l = ofEntries l' :=
  ofEntries_eq_iff.mpr fun _ _ hne => ⟨h.lists h' hne, h'.lists h hne⟩

/-- The files of a tree as a listing. -/
def entriesOf (t : RepositoryTree) : List (String × Nat) := t.files.map fun f => (f.path, f.sizeBytes)

theorem mem_entriesOf : (path, size) ∈ entriesOf (ofEntries entries) ↔ path ≠ "" ∧ Lists entries path size := by
  simp only [entriesOf, List.mem_map, mem_files, Prod.mk.injEq]
  constructor
  · rintro ⟨_, ⟨path', size', hne, hlists, rfl⟩, rfl, rfl⟩
    exact ⟨hne, hlists⟩
  · rintro ⟨hne, hlists⟩
    exact ⟨nodeOf path size, ⟨path, size, hne, hlists, rfl⟩, rfl, rfl⟩

theorem ofEntries_entriesOf (entries : List (String × Nat)) : ofEntries (entriesOf (ofEntries entries)) = ofEntries entries := by
  refine ofEntries_eq_of_covers ?_ ?_
  · rintro path size hne ⟨raw, hmem, hread⟩
    obtain ⟨smallest, hlisted⟩ := exists_mem_listing hmem hread hne
    obtain ⟨-, hlists⟩ := mem_listing.mp hlisted
    have ⟨⟨other, _, hother⟩, hleast⟩ := hlists
    exact ⟨smallest, hleast _ hmem hread, path, mem_entriesOf.mpr ⟨hne, hlists⟩, readsAs_self hother⟩
  · rintro path size - ⟨listed, hmem, hread⟩
    obtain ⟨-, ⟨raw, hraw, hlisted⟩, -⟩ := mem_entriesOf.mp hmem
    obtain rfl := readsAs_unique hread (readsAs_self hlisted)
    exact ⟨size, Nat.le_refl size, raw, hraw, hlisted⟩

/-- Any number of changes, one after the other and in either direction. -/
theorem ofEntries_eq_of_eqvGen (h : Relation.EqvGen Restates l l') : ofEntries l = ofEntries l' := by
  induction h with
  | rel l l' h => exact ofEntries_eq_of_covers h.covers.1 h.covers.2
  | refl l => rfl
  | symm l l' _ ih => exact ih.symm
  | trans l l' l'' _ _ ih ih' => exact ih.trans ih'

/-- Listings that restate each other give the same tree, and so does the listing of the files of a tree; and trees are equal
only if their listings name the same paths with the same smallest sizes. -/
theorem ofEntries_restated (l l' : List (String × Nat)) :
    (Relation.EqvGen Restates l l' → ofEntries l = ofEntries l') ∧ ofEntries (entriesOf (ofEntries l)) = ofEntries l ∧
      (ofEntries l = ofEntries l' ↔ ∀ path size, path ≠ "" → (Lists l path size ↔ Lists l' path size)) :=
  ⟨ofEntries_eq_of_eqvGen, ofEntries_entriesOf l, ofEntries_eq_iff⟩

/-- Two files in the other order, one of them with a backslash and slashes at the ends and once more with a larger size, and
an entry of slashes. -/
theorem ofEntries_restated_twice :
    let l := [("src/b/B.sol", 10), ("src/A.sol", 20)]
    let l' := [("//", 3), ("/src\\A.sol/", 25), ("/src\\A.sol/", 20), ("src/b/B.sol", 10)]
    Relation.EqvGen Restates l l' ∧ ofEntries l = ofEntries l' := by
  intro l l'
  have horder : Restates l [("src/A.sol", 20), ("src/b/B.sol", 10)] := .permuted (.swap _ _ _)
  have hslashes : Restates [("src/A.sol", 20), ("src/b/B.sol", 10)] [("/src/A.sol/", 20), ("src/b/B.sol", 10)] :=
    @Restates.slashed "/" "/" (by simp) (by simp) "src/A.sol" 20 _
  have hbackslash : Backslashed "/src/A.sol/" "/src\\A.sol/" := by
    rw [Backslashed]
    decide
  have hrepeat : Restates [("/src\\A.sol/", 20), ("src/b/B.sol", 10)] l'.tail := .repeated List.mem_cons_self (by decide)
  have hnameless : Restates l'.tail l' := .nameless (by simp) 3 _
  have h : Relation.EqvGen Restates l l' :=
    .trans _ _ _ (.rel _ _ horder) <| .trans _ _ _ (.rel _ _ hslashes) <|
      .trans _ _ _ (.rel _ _ (.backslashed hbackslash 20 _)) <| .trans _ _ _ (.rel _ _ hrepeat) (.rel _ _ hnameless)
  exact ⟨h, (ofEntries_restated l l').1 h⟩

end ContractMigration.RepositoryTree
