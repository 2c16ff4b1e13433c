import ContractMigration.Report.Consistency
import Mathlib.Data.List.Basic
import Mathlib.Tactic.ByContra

/-! What the consistency report says. The walk through the files keeps two flags and lists issues; in the end the flags and
the list can be read off one list: the imports are valid if every import leads out of the repository or to a known path,
the parents if each is declared or may be declared outside, and there is no issue exactly if both hold. -/

namespace ContractMigration

open Solidity (ExtractedFile)

/-! ### The issues of files -/

namespace Issue

def isImport : Issue → Bool
  | .import .. => true
  | _ => false

def isParent : Issue → Bool
  | .parent .. => true
  | _ => false

end Issue

/-- What is wrong with the imports of a file. -/
def importIssues (k : Known) (rules : ConsistencyRules) (f : ExtractedFile) : List Issue :=
  f.imports.filterMap fun i => match Import.check f.filePath i k.paths rules.importPrefixes with
    | .unresolved p => some (.import f.filePath i p)
    | _ => none

/-- What is wrong with the parents of the contracts of a file. -/
def parentIssues (k : Known) (rules : ConsistencyRules) (f : ExtractedFile) : List Issue :=
  f.contracts.flatMap fun c => (c.inherits.filter fun p =>
    !k.declares p && !isExternalParent p rules.parentNames).map fun p => .parent f.filePath c.name p

/-- What is wrong with a file, its imports first. -/
def fileIssues (k : Known) (rules : ConsistencyRules) (f : ExtractedFile) : List Issue :=
  importIssues k rules f ++ parentIssues k rules f

/-- All that is wrong with files, seen with the contracts of an analysis. -/
def structuralIssues (contracts : List ContractUnit) (files : List ExtractedFile) (rules : ConsistencyRules) :
    List Issue :=
  files.flatMap (fileIssues (.of contracts files) rules)

theorem map_filter_eq_flatMap {α β : Type*} (l : List α) (p : α → Bool) (g : α → β) :
    (l.filter p).map g = l.flatMap fun a => if p a then [g a] else [] := by
  induction l with
  | nil => rfl
  | cons a l ih => by_cases h : p a <;> simp [h, ih]

/-! ### The walk through the files -/

namespace ConsistencyReport

/-- A report with some more files and issues: an issue lowers the flag that it is about. -/
def noting (r : ConsistencyReport) (n : Nat) (issues : List Issue) : ConsistencyReport :=
  { r with
    importsValid := r.importsValid && !issues.any Issue.isImport
    inheritanceValid := r.inheritanceValid && !issues.any Issue.isParent
    issues := r.issues ++ issues.map Issue.message
    filesChecked := r.filesChecked + n }

variable {k : Known} {rules : ConsistencyRules} {f : ExtractedFile}

theorem noting_nil (r : ConsistencyReport) : r.noting 0 [] = r := by simp [noting]

theorem noting_noting (r : ConsistencyReport) (m n : Nat) (xs ys : List Issue) :
    (r.noting m xs).noting n ys = r.noting (m + n) (xs ++ ys) := by
  simp [noting, Bool.and_assoc, Nat.add_assoc]

/-- What each step notes, the whole walk notes in order. -/
theorem foldl_noting {α : Type} {step : ConsistencyReport → α → ConsistencyReport} {n : Nat} {g : α → List Issue}
    (h : ∀ r a, step r a = r.noting n (g a)) (l : List α) (r : ConsistencyReport) :
    l.foldl step r = r.noting (n * l.length) (l.flatMap g) := by
  induction l generalizing r with
  | nil => exact r.noting_nil.symm
  | cons a rest ih =>
    rw [List.foldl_cons, h, ih, noting_noting, List.length_cons, List.flatMap_cons, Nat.mul_succ, Nat.add_comm]

theorem foldl_checkImport (r : ConsistencyReport) :
    f.imports.foldl (checkImport k rules f) r = r.noting 0 (importIssues k rules f) := by
  rw [importIssues, List.filterMap_eq_flatMap_toList, ← Nat.zero_mul f.imports.length]
  refine foldl_noting (fun r t => ?_) _ r
  rw [checkImport]
  cases Import.check f.filePath t k.paths rules.importPrefixes with
  | unresolved p => simp [noting, Issue.isImport, Issue.isParent]
  | _ => exact r.noting_nil.symm

theorem foldl_checkParent (c : ContractUnit) (r : ConsistencyReport) :
    c.inherits.foldl (checkParent k rules f c) r =
      r.noting 0 ((c.inherits.filter fun p => !k.declares p && !isExternalParent p rules.parentNames).map fun p =>
        .parent f.filePath c.name p) := by
  rw [map_filter_eq_flatMap, ← Nat.zero_mul c.inherits.length]
  refine foldl_noting (fun r p => ?_) _ r
  rw [checkParent]
  by_cases hdeclared : k.declares p
  · simp [noting, hdeclared]
  · by_cases hexternal : isExternalParent p rules.parentNames
    · simp [noting, hexternal]
    · simp [noting, hdeclared, hexternal, Issue.isImport, Issue.isParent]

theorem checkFile_eq (r : ConsistencyReport) (f : ExtractedFile) :
    checkFile k rules r f = r.noting 1 (fileIssues k rules f) := by
  have hcount : ({ r with filesChecked := r.filesChecked + 1 } : ConsistencyReport) = r.noting 1 [] := by simp [noting]
  rw [checkFile, hcount, foldl_checkImport, noting_noting, foldl_noting (fun r c => foldl_checkParent c r), noting_noting,
    Nat.zero_mul]
  rfl

theorem foldl_checkFile (files : List ExtractedFile) (r : ConsistencyReport) :
    files.foldl (checkFile k rules) r = r.noting files.length (files.flatMap (fileIssues k rules)) := by
  rw [← Nat.one_mul files.length]
  exact foldl_noting checkFile_eq files r

end ConsistencyReport

/-- The flags and the list of a report on files are read off the issues of the files. -/
theorem validateExtracted_eq (contracts : List ContractUnit) (files : List ExtractedFile) (rules : ConsistencyRules) :
    validateExtracted contracts files rules =
      { checked := !files.isEmpty
        importsValid := !(structuralIssues contracts files rules).any Issue.isImport
        inheritanceValid := !(structuralIssues contracts files rules).any Issue.isParent
        issues := (structuralIssues contracts files rules).map Issue.message
        filesChecked := files.length
        syntaxErrors := 0 } := by
  cases files with
  | nil => rfl
  | cons f rest =>
    rw [validateExtracted, ConsistencyReport.foldl_checkFile]
    simp [ConsistencyReport.noting, ConsistencyReport.unchecked, structuralIssues]

/-! ### What is valid -/

/-- An import leads out of the repository or to a known path. -/
def Known.Leads (k : Known) (rules : ConsistencyRules) (source target : String) : Prop :=
  Import.isExternal target rules.importPrefixes = true ∨ Import.resolve source target ∈ k.paths

/-- A parent is declared, or may be declared outside of the repository. -/
def Known.Admits (k : Known) (rules : ConsistencyRules) (parent : String) : Prop :=
  k.declares parent = true ∨ isExternalParent parent rules.parentNames = true

variable {k : Known} {rules : ConsistencyRules} {f : ExtractedFile} {files : List ExtractedFile}
  {contracts : List ContractUnit}

theorem check_eq_unresolved_iff {source target path : String} :
    Import.check source target k.paths rules.importPrefixes = .unresolved path ↔
      ¬k.Leads rules source target ∧ path = Import.resolve source target := by
  unfold Import.check Known.Leads
  by_cases hexternal : Import.isExternal target rules.importPrefixes = true
  · simp [hexternal]
  · by_cases hknown : Import.resolve source target ∈ k.paths
    · simp [hexternal, hknown]
    · simp [hexternal, hknown, eq_comm]

theorem mem_importIssues {i : Issue} :
    i ∈ importIssues k rules f ↔
      ∃ t ∈ f.imports, ¬k.Leads rules f.filePath t ∧ i = .import f.filePath t (Import.resolve f.filePath t) := by
  unfold importIssues
  rw [List.mem_filterMap]
  refine exists_congr fun t => and_congr_right fun _ => ?_
  constructor
  · intro h
    split at h
    · next path hpath =>
      obtain ⟨hleads, rfl⟩ := check_eq_unresolved_iff.mp hpath
      exact ⟨hleads, (Option.some.inj h).symm⟩
    · cases h
  · rintro ⟨hleads, rfl⟩
    rw [check_eq_unresolved_iff.mpr ⟨hleads, rfl⟩]

theorem mem_parentIssues {i : Issue} :
    i ∈ parentIssues k rules f ↔
      ∃ c ∈ f.contracts, ∃ p ∈ c.inherits, ¬k.Admits rules p ∧ i = .parent f.filePath c.name p := by
  simp only [parentIssues, List.mem_flatMap, List.mem_map, List.mem_filter, Bool.and_eq_true, Bool.not_eq_true',
    Known.Admits, not_or, Bool.not_eq_true]
  constructor
  · rintro ⟨c, hc, p, ⟨hp, hadmits⟩, rfl⟩
    exact ⟨c, hc, p, hp, hadmits, rfl⟩
  · rintro ⟨c, hc, p, hp, hadmits, rfl⟩
    exact ⟨c, hc, p, ⟨hp, hadmits⟩, rfl⟩

theorem mem_structuralIssues {i : Issue} :
    i ∈ structuralIssues contracts files rules ↔
      ∃ f ∈ files, i ∈ importIssues (.of contracts files) rules f ∨ i ∈ parentIssues (.of contracts files) rules f := by
  simp [structuralIssues, fileIssues]

theorem leads_of_no_import_issue {t : String} (hf : f ∈ files) (ht : t ∈ f.imports)
    (h : Issue.import f.filePath t (Import.resolve f.filePath t) ∉ structuralIssues contracts files rules) :
    (Known.of contracts files).Leads rules f.filePath t := by
  by_contra hleads
  exact h (mem_structuralIssues.mpr ⟨f, hf, .inl (mem_importIssues.mpr ⟨t, ht, hleads, rfl⟩)⟩)

theorem admits_of_no_parent_issue {c : ContractUnit} {p : String} (hf : f ∈ files) (hc : c ∈ f.contracts)
    (hp : p ∈ c.inherits) (h : Issue.parent f.filePath c.name p ∉ structuralIssues contracts files rules) :
    (Known.of contracts files).Admits rules p := by
  by_contra hadmits
  exact h (mem_structuralIssues.mpr ⟨f, hf, .inr (mem_parentIssues.mpr ⟨c, hc, p, hp, hadmits, rfl⟩)⟩)

theorem importsValid_iff :
    (validateExtracted contracts files rules).importsValid = true ↔
      ∀ f ∈ files, ∀ t ∈ f.imports, (Known.of contracts files).Leads rules f.filePath t := by
  have hvalid : (validateExtracted contracts files rules).importsValid = true ↔
      ∀ i ∈ structuralIssues contracts files rules, i.isImport = false := by simp [validateExtracted_eq]
  rw [hvalid]
  constructor
  · intro h f hf t ht
    exact leads_of_no_import_issue hf ht fun hissue => Bool.noConfusion (h _ hissue)
  · intro h i hi
    obtain ⟨f, hf, hi | hi⟩ := mem_structuralIssues.mp hi
    · obtain ⟨t, ht, hleads, -⟩ := mem_importIssues.mp hi
      exact absurd (h f hf t ht) hleads
    · obtain ⟨c, -, p, -, -, rfl⟩ := mem_parentIssues.mp hi
      rfl

theorem inheritanceValid_iff :
    (validateExtracted contracts files rules).inheritanceValid = true ↔
      ∀ f ∈ files, ∀ c ∈ f.contracts, ∀ p ∈ c.inherits, (Known.of contracts files).Admits rules p := by
  have hvalid : (validateExtracted contracts files rules).inheritanceValid = true ↔
      ∀ i ∈ structuralIssues contracts files rules, i.isParent = false := by simp [validateExtracted_eq]
  rw [hvalid]
  constructor
  · intro h f hf c hc p hp
    exact admits_of_no_parent_issue hf hc hp fun hissue => Bool.noConfusion (h _ hissue)
  · intro h i hi
    obtain ⟨f, hf, hi | hi⟩ := mem_structuralIssues.mp hi
    · obtain ⟨t, -, -, rfl⟩ := mem_importIssues.mp hi
      rfl
    · obtain ⟨c, hc, p, hp, hadmits, -⟩ := mem_parentIssues.mp hi
      exact absurd (h f hf c hc p hp) hadmits

/-- The list of issues is empty when both flags say so. -/
theorem issues_eq_nil_iff :
    (validateExtracted contracts files rules).issues = [] ↔
      (validateExtracted contracts files rules).importsValid = true ∧
        (validateExtracted contracts files rules).inheritanceValid = true := by
  have hissues : (validateExtracted contracts files rules).issues = [] ↔ structuralIssues contracts files rules = [] := by
    simp [validateExtracted_eq]
  rw [hissues, importsValid_iff, inheritanceValid_iff]
  constructor
  · intro h
    have hnone : ∀ i, i ∉ structuralIssues contracts files rules := List.eq_nil_iff_forall_not_mem.mp h
    exact ⟨fun f hf t ht => leads_of_no_import_issue hf ht (hnone _),
      fun f hf c hc p hp => admits_of_no_parent_issue hf hc hp (hnone _)⟩
  · rintro ⟨himports, hparents⟩
    refine List.eq_nil_iff_forall_not_mem.mpr fun i hi => ?_
    obtain ⟨f, hf, hi | hi⟩ := mem_structuralIssues.mp hi
    · obtain ⟨t, ht, hleads, -⟩ := mem_importIssues.mp hi
      exact hleads (himports f hf t ht)
    · obtain ⟨c, hc, p, hp, hadmits, -⟩ := mem_parentIssues.mp hi
      exact hadmits (hparents f hf c hc p hp)

end ContractMigration
