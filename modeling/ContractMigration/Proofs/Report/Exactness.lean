import ContractMigration.Proofs.Numbered
import ContractMigration.Proofs.Report.Rules
import Mathlib.Data.List.Basic
import Mathlib.Tactic.SplitIfs

/-! The report on files is exact. Every import and every parent has a spot in the files, by numbers; the issues of the
report are those of the spots where something is wrong, each once, in the order of the spots. -/

namespace ContractMigration

open Solidity (ExtractedFile)

/-! ### Spots -/

/-- Where an import or a parent stands: the number of its file, of the contract, and its own. -/
inductive Spot
  | imported (file index : Nat)
  | inherited (file contract index : Nat)

namespace Spot

/-- The number of the file. -/
def file : Spot → Nat
  | imported f _ => f
  | inherited f _ _ => f

/-- The order of spots: by files, the imports of a file before the parents of its contracts. -/
def Before : Spot → Spot → Prop
  | imported f i, imported g j => f < g ∨ f = g ∧ i < j
  | imported f _, inherited g _ _ => f ≤ g
  | inherited f _ _, imported g _ => f < g
  | inherited f c i, inherited g d j => f < g ∨ f = g ∧ (c < d ∨ c = d ∧ i < j)

theorem before_of_file_lt {p q : Spot} (h : p.file < q.file) : p.Before q := by
  cases p with
  | imported f i =>
    cases q with
    | imported g j => exact .inl h
    | inherited g d j => exact Nat.le_of_lt h
  | inherited f c i =>
    cases q with
    | imported g j => exact h
    | inherited g d j => exact .inl h

end Spot

/-- Something is wrong at a spot, and this is the issue. -/
def Offends (contracts : List ContractUnit) (files : List ExtractedFile) (rules : ConsistencyRules) :
    Spot → Issue → Prop
  | .imported f i, issue => ∃ file target, files[f]? = some file ∧ file.imports[i]? = some target ∧
      Stray contracts files rules file.filePath target ∧
      issue = .import file.filePath target (Import.resolve file.filePath target)
  | .inherited f c i, issue => ∃ file contract parent, files[f]? = some file ∧ file.contracts[c]? = some contract ∧
      contract.inherits[i]? = some parent ∧ Orphan contracts files rules parent ∧
      issue = .parent file.filePath contract.name parent

/-! ### The issues and their spots -/

section Spotted
variable (k : Known) (rules : ConsistencyRules)

/-- The issue of an import at its spot. -/
def importAt (n : Nat) (f : ExtractedFile) (i : Nat) (target : String) : List (Spot × Issue) :=
  match Import.check f.filePath target k.paths rules.importPrefixes with
  | .unresolved p => [(.imported n i, .import f.filePath target p)]
  | _ => []

/-- The issue of a parent at its spot. -/
def parentAt (n : Nat) (f : ExtractedFile) (c : Nat) (u : ContractUnit) (i : Nat) (parent : String) :
    List (Spot × Issue) :=
  if !k.declares parent && !isExternalParent parent rules.parentNames then
    [(.inherited n c i, .parent f.filePath u.name parent)]
  else []

/-- The issues of a file at their spots. -/
def fileAt (n : Nat) (f : ExtractedFile) : List (Spot × Issue) :=
  numbered f.imports (importAt k rules n f) ++
    numbered f.contracts fun c u => numbered u.inherits (parentAt k rules n f c u)

variable {k rules} {n : Nat} {f : ExtractedFile} {x : Spot × Issue}

theorem mem_importAt {i : Nat} {target : String} :
    x ∈ importAt k rules n f i target ↔ ¬k.Leads rules f.filePath target ∧
      x = (.imported n i, .import f.filePath target (Import.resolve f.filePath target)) := by
  unfold importAt
  split
  · next p hp =>
    obtain ⟨hleads, rfl⟩ := check_eq_unresolved_iff.1 hp
    simp [hleads]
  · next hp =>
    have hleads : k.Leads rules f.filePath target := by
      by_contra hleads
      exact hp _ (check_eq_unresolved_iff.2 ⟨hleads, rfl⟩)
    simp [hleads]

theorem mem_parentAt {c i : Nat} {u : ContractUnit} {parent : String} :
    x ∈ parentAt k rules n f c u i parent ↔
      ¬k.Admits rules parent ∧ x = (.inherited n c i, .parent f.filePath u.name parent) := by
  have hadmits : (!k.declares parent && !isExternalParent parent rules.parentNames) = true ↔ ¬k.Admits rules parent := by
    simp [Known.Admits, not_or]
  unfold parentAt
  split_ifs with h
  · simp [hadmits.1 h]
  · simp [mt hadmits.2 h]

/-- Without their spots these are the issues of the file. -/
theorem map_fileAt : (fileAt k rules n f).map Prod.snd = fileIssues k rules f := by
  have himports : (numbered f.imports (importAt k rules n f)).map Prod.snd = importIssues k rules f := by
    rw [importIssues, List.filterMap_eq_flatMap_toList]
    apply map_numbered
    intro i target
    unfold importAt
    split <;> simp_all
  have hparents : (numbered f.contracts fun c u => numbered u.inherits (parentAt k rules n f c u)).map Prod.snd =
      parentIssues k rules f := by
    apply map_numbered
    intro c u
    rw [map_filter_eq_flatMap]
    apply map_numbered
    intro i parent
    unfold parentAt
    split_ifs <;> simp
  rw [fileAt, fileIssues, List.map_append, himports, hparents]

theorem mem_fileAt : x ∈ fileAt k rules n f ↔
    (∃ i target, f.imports[i]? = some target ∧ x ∈ importAt k rules n f i target) ∨
    ∃ c u, f.contracts[c]? = some u ∧ ∃ i parent, u.inherits[i]? = some parent ∧ x ∈ parentAt k rules n f c u i parent := by
  simp only [fileAt, List.mem_append, mem_numbered]

/-- The issues of a file stand at different spots of it, in their order. -/
theorem pairwise_fileAt : (fileAt k rules n f).Pairwise fun x y => x.1.Before y.1 := by
  have himports : (numbered f.imports (importAt k rules n f)).Pairwise fun x y => x.1.Before y.1 := by
    apply pairwise_numbered
    · intro i target
      unfold importAt
      split <;> simp
    · intro i j t t' hij x hx y hy
      rw [(mem_importAt.1 hx).2, (mem_importAt.1 hy).2]
      exact .inr ⟨rfl, hij⟩
  have hparents : (numbered f.contracts fun c u => numbered u.inherits (parentAt k rules n f c u)).Pairwise
      fun x y => x.1.Before y.1 := by
    apply pairwise_numbered
    · intro c u
      apply pairwise_numbered
      · intro i parent
        unfold parentAt
        split_ifs <;> simp
      · intro i j p p' hij x hx y hy
        rw [(mem_parentAt.1 hx).2, (mem_parentAt.1 hy).2]
        exact .inr ⟨rfl, .inr ⟨rfl, hij⟩⟩
    · intro c d u v hcd x hx y hy
      obtain ⟨i, p, -, hx⟩ := mem_numbered.1 hx
      obtain ⟨j, q, -, hy⟩ := mem_numbered.1 hy
      rw [(mem_parentAt.1 hx).2, (mem_parentAt.1 hy).2]
      exact .inr ⟨rfl, .inl hcd⟩
  refine List.pairwise_append.2 ⟨himports, hparents, fun x hx y hy => ?_⟩
  obtain ⟨i, t, -, hx⟩ := mem_numbered.1 hx
  obtain ⟨c, u, -, hy⟩ := mem_numbered.1 hy
  obtain ⟨j, p, -, hy⟩ := mem_numbered.1 hy
  rw [(mem_importAt.1 hx).2, (mem_parentAt.1 hy).2]
  exact Nat.le_refl n

theorem file_of_mem_fileAt (hx : x ∈ fileAt k rules n f) : x.1.file = n := by
  obtain ⟨i, t, -, hx⟩ | ⟨c, u, -, i, p, -, hx⟩ := mem_fileAt.1 hx
  · rw [(mem_importAt.1 hx).2]
    rfl
  · rw [(mem_parentAt.1 hx).2]
    rfl

end Spotted

/-- The issues that are listed are those of the spots where something is wrong. -/
theorem mem_spots_iff {contracts : List ContractUnit} {files : List ExtractedFile} {rules : ConsistencyRules}
    {spot : Spot} {issue : Issue} :
    (spot, issue) ∈ numbered files (fileAt (.of contracts files) rules) ↔
      Offends contracts files rules spot issue := by
  simp only [mem_numbered, mem_fileAt, mem_importAt, mem_parentAt, Prod.mk.injEq]
  cases spot with
  | imported n i =>
    simp only [Offends, stray_iff, Spot.imported.injEq, reduceCtorEq, false_and, and_false, exists_false, or_false]
    constructor
    · rintro ⟨m, f, hf, j, t, ht, hstray, ⟨rfl, rfl⟩, hissue⟩
      exact ⟨f, t, hf, ht, hstray, hissue⟩
    · rintro ⟨f, t, hf, ht, hstray, hissue⟩
      exact ⟨n, f, hf, i, t, ht, hstray, ⟨rfl, rfl⟩, hissue⟩
  | inherited n c i =>
    simp only [Offends, orphan_iff, Spot.inherited.injEq, reduceCtorEq, false_and, and_false, exists_false, false_or]
    constructor
    · rintro ⟨m, f, hf, d, u, hu, j, p, hp, horphan, ⟨rfl, rfl, rfl⟩, hissue⟩
      exact ⟨f, u, p, hf, hu, hp, horphan, hissue⟩
    · rintro ⟨f, u, p, hf, hu, hp, horphan, hissue⟩
      exact ⟨n, f, hf, c, u, hu, i, p, hp, horphan, ⟨rfl, rfl, rfl⟩, hissue⟩

/-- The report on files is exact: its flags say whether something is wrong, and its issues are those of the spots where
something is, each once, in order. -/
theorem validateExtracted_exact (a : Analysis) (files : List ExtractedFile) (rules : ConsistencyRules) :
    ((validateExtracted a.contracts files rules).importsValid = false ↔
      ∃ f ∈ files, ∃ t ∈ f.imports, Stray a.contracts files rules f.filePath t) ∧
    ((validateExtracted a.contracts files rules).inheritanceValid = false ↔
      ∃ f ∈ files, ∃ c ∈ f.contracts, ∃ p ∈ c.inherits, Orphan a.contracts files rules p) ∧
    ∃ found : List (Spot × Issue),
      (validateExtracted a.contracts files rules).issues = found.map (fun x => x.2.message) ∧
      found.Pairwise (fun x y => x.1.Before y.1) ∧
      ∀ spot issue, (spot, issue) ∈ found ↔ Offends a.contracts files rules spot issue := by
  refine ⟨?_, ?_, numbered files (fileAt (.of a.contracts files) rules), ?_, ?_, ?_⟩
  · rw [← Bool.not_eq_true, importsValid_iff]
    simp only [not_forall, exists_prop, stray_iff]
  · rw [← Bool.not_eq_true, inheritanceValid_iff]
    simp only [not_forall, exists_prop, orphan_iff]
  · have hissues : (numbered files (fileAt (.of a.contracts files) rules)).map Prod.snd =
        structuralIssues a.contracts files rules := map_numbered files fun n f => map_fileAt
    rw [validateExtracted_eq, ← hissues, List.map_map]
    rfl
  · apply pairwise_numbered
    · exact fun n f => pairwise_fileAt
    · intro n m f g h x hx y hy
      apply Spot.before_of_file_lt
      rwa [file_of_mem_fileAt hx, file_of_mem_fileAt hy]
  · exact fun spot issue => mem_spots_iff

end ContractMigration
