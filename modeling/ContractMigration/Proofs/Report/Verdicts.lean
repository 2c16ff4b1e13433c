import ContractMigration.Proofs.Analysis.Isolation
import ContractMigration.Proofs.Report.Rules
import ContractMigration.Proofs.Report.Unchanged
import ContractMigration.Proofs.Solidity.Extraction
import ContractMigration.Report.Outcome
import Mathlib.Algebra.BigOperators.Group.List.Basic
import Mathlib.Algebra.GroupWithZero.Nat

/-! The verdicts on transformed sources. Whether all is well is told several times: by the flags and the counter of the
consistency report, by its list of issues, and by what the verdict on the transformation says, scores and advises. They all
agree, because each issue is one source that is not well formed, one stray import or one orphaned parent. -/

namespace ContractMigration

open Solidity (ExtractedFile)

/-! ### How many issues there are -/

section Counts

variable (contracts : List ContractUnit) (files : List ExtractedFile) (rules : ConsistencyRules)

instance (k : Known) (source target : String) : Decidable (k.Leads rules source target) :=
  inferInstanceAs (Decidable (_ ∨ _))

instance (k : Known) (parent : String) : Decidable (k.Admits rules parent) := inferInstanceAs (Decidable (_ ∨ _))

instance (source target : String) : Decidable (Stray contracts files rules source target) :=
  decidable_of_iff _ stray_iff.symm

instance (parent : String) : Decidable (Orphan contracts files rules parent) := decidable_of_iff _ orphan_iff.symm

/-- How many imports of the files are stray. -/
def strayImports : Nat := (files.map fun f => f.imports.countP fun t => Stray contracts files rules f.filePath t).sum

/-- How many parents of contracts of the files are orphaned. -/
def orphanedParents : Nat :=
  (files.map fun f => (f.contracts.map fun c => c.inherits.countP fun p => Orphan contracts files rules p).sum).sum

variable {contracts files rules}

theorem length_importIssues (f : ExtractedFile) : (importIssues (.of contracts files) rules f).length =
    f.imports.countP fun t => Stray contracts files rules f.filePath t := by
  rw [importIssues, List.length_filterMap_eq_countP]
  refine List.countP_congr fun t _ => ?_
  rw [decide_eq_true_iff, stray_iff]
  split
  · next path hpath => simp [(check_eq_unresolved_iff.mp hpath).1]
  · next hnone =>
    have hleads : (Known.of contracts files).Leads rules f.filePath t := by
      by_contra hleads
      exact hnone _ (check_eq_unresolved_iff.mpr ⟨hleads, rfl⟩)
    simp [hleads]

theorem length_parentIssues (f : ExtractedFile) : (parentIssues (.of contracts files) rules f).length =
    (f.contracts.map fun c => c.inherits.countP fun p => Orphan contracts files rules p).sum := by
  rw [parentIssues, List.length_flatMap]
  refine congrArg List.sum (List.map_congr_left fun c _ => ?_)
  rw [List.length_map, ← List.countP_eq_length_filter]
  refine List.countP_congr fun p _ => ?_
  rw [decide_eq_true_iff, orphan_iff]
  simp [Known.Admits]

/-- Each issue of files that are read is a stray import or an orphaned parent. -/
theorem length_structuralIssues : (structuralIssues contracts files rules).length =
    strayImports contracts files rules + orphanedParents contracts files rules := by
  simp only [structuralIssues, fileIssues, List.length_flatMap, List.length_append, length_importIssues,
    length_parentIssues, strayImports, orphanedParents, List.sum_map_add]

theorem importsValid_eq_false_iff :
    (validateExtracted contracts files rules).importsValid = false ↔ 0 < strayImports contracts files rules := by
  rw [← Bool.not_eq_true, importsValid_iff]
  simp [strayImports, List.sum_pos_iff_exists_pos_nat, List.countP_pos_iff, stray_iff]

theorem inheritanceValid_eq_false_iff :
    (validateExtracted contracts files rules).inheritanceValid = false ↔ 0 < orphanedParents contracts files rules := by
  rw [← Bool.not_eq_true, inheritanceValid_iff]
  simp [orphanedParents, List.sum_pos_iff_exists_pos_nat, List.countP_pos_iff, orphan_iff]

end Counts

/-! ### The report on sources -/

/-- The sources that are not well formed. -/
def unreadable (sources : List Source) : List Source := sources.filter fun s => (Solidity.parse? s.2).isNone

/-- The issue of a source that is not well formed. -/
def malformedIssue (s : Source) : Issue := .malformed s.1 (.parse s.1 Solidity.malformed)

section Sources

variable (a : Analysis) (sources : List Source) (rules : ConsistencyRules)

/-- A source is read or not well formed. -/
theorem read_or_malformed (s : Source) :
    (∃ f, Solidity.extract s.1 s.2 = .ok f ∧ (Solidity.parse? s.2).isNone = false) ∨
      Solidity.extract s.1 s.2 = .error (.parse s.1 Solidity.malformed) ∧ (Solidity.parse? s.2).isNone = true := by
  cases h : Solidity.parse? s.2 with
  | none => exact .inr ⟨Solidity.extract_of_parse? h, rfl⟩
  | some trees => exact .inl ⟨_, Solidity.extract_eq_ok h, rfl⟩

theorem length_readable_add_unreadable : (readable sources).length + (unreadable sources).length = sources.length := by
  induction sources with
  | nil => rfl
  | cons s sources ih =>
    rw [readable, unreadable] at ih ⊢
    rcases read_or_malformed s with ⟨f, hextract, hparse⟩ | ⟨hextract, hparse⟩
    · simp only [List.filterMap_cons, List.filter_cons, hextract, hparse, Except.toOption, Bool.false_eq_true, if_false,
        List.length_cons] at ih ⊢
      omega
    · simp only [List.filterMap_cons, List.filter_cons, hextract, hparse, Except.toOption, if_true,
        List.length_cons] at ih ⊢
      omega

theorem filterMap_malformed :
    ((sources.map fun s => (s.1, Solidity.extract s.1 s.2)).filterMap fun o => match o.2 with
      | .ok _ => none
      | .error e => some (Issue.malformed o.1 e)) = (unreadable sources).map malformedIssue := by
  induction sources with
  | nil => rfl
  | cons s sources ih =>
    rw [unreadable] at ih ⊢
    rcases read_or_malformed s with ⟨f, hextract, hparse⟩ | ⟨hextract, hparse⟩
    · simpa [hextract, hparse] using ih
    · simpa [hextract, hparse, malformedIssue] using ih

/-- The report on sources: that on those that are read, and an issue for each of the others. -/
theorem validateConsistency_eq :
    validateConsistency a sources rules =
      { checked := !sources.isEmpty
        importsValid := (validateExtracted a.contracts (readable sources) rules).importsValid
        inheritanceValid := (validateExtracted a.contracts (readable sources) rules).inheritanceValid
        issues := (structuralIssues a.contracts (readable sources) rules ++
          (unreadable sources).map malformedIssue).map Issue.message
        filesChecked := sources.length
        syntaxErrors := (unreadable sources).length } := by
  unfold validateConsistency
  extract_lets outcomes files broken report filesChecked
  have hfiles : files = readable sources := List.filterMap_map
  have hbroken : broken = (unreadable sources).map malformedIssue := filterMap_malformed sources
  have hlength := length_readable_add_unreadable sources
  have hcount : filesChecked = sources.length := by
    simp only [filesChecked, report, validateExtracted_eq, hfiles, hbroken, List.length_map]
    omega
  have hchecked : decide (0 < sources.length) = !sources.isEmpty := by cases sources <;> simp
  rw [hcount, hchecked, hbroken, List.length_map]
  simp only [report, hfiles, validateExtracted_eq, List.map_append]

theorem mem_unreadable {s : Source} : s ∈ unreadable sources ↔ s ∈ sources ∧ Solidity.parse? s.2 = none := by
  simp [unreadable]

end Sources

/-! ### What to do next -/

/-- The step for a number of issues between files. -/
def structuralStep (n : Nat) : String := "Fix " ++ counted n "cross-file consistency issue" ++ " before deploying"

/-- The step for a number of sources that are not well formed. -/
def syntaxStep (n : Nat) : String := "Resolve syntax errors in " ++ counted n "transformed file"

/-- The first letters of a step, by which steps are told apart. -/
def initials (s : String) : List Char := s.toList.take 3

theorem initials_append (s t : String) (h : 3 ≤ s.toList.length) : initials (s ++ t) = initials s := by
  rw [initials, String.toList_append, List.take_append_of_le_length h, initials]

theorem initials_structuralStep (n : Nat) : initials (structuralStep n) = "Fix".toList := by
  unfold structuralStep
  rw [String.append_assoc, initials_append "Fix " _ (by decide)]
  decide

theorem initials_syntaxStep (n : Nat) : initials (syntaxStep n) = "Res".toList := by
  unfold syntaxStep
  rw [initials_append "Resolve syntax errors in " _ (by decide)]
  decide

section Steps

variable {α : Type} (r : TransformationReport α) (upgradeable : Nat) {s : String}

theorem mem_nextSteps : s ∈ nextSteps r upgradeable ↔
    (0 < r.consistency.issues.length - r.consistency.syntaxErrors ∧
      s = structuralStep (r.consistency.issues.length - r.consistency.syntaxErrors)) ∨
    (0 < r.consistency.syntaxErrors ∧ s = syntaxStep r.consistency.syntaxErrors) ∨
    (0 < r.filesSkipped ∧ s = "Review " ++ counted r.filesSkipped "skipped file" ++ " manually") ∨
    (0 < upgradeable ∧ s = "Verify storage layout compatibility for " ++ counted upgradeable "upgradeable contract") ∨
    (r.filesModified = 0 ∧ s = "No files were modified; revisit the migration plan") ∨
    s = "Run the project's test suite against the transformed contracts" := by
  have hwhen : ∀ (p : Prop) [Decidable p] (t : String), s ∈ (if p then [t] else []) ↔ p ∧ s = t := by
    intro p _ t
    split_ifs with hp <;> simp [hp]
  unfold nextSteps
  extract_lets structural when
  have htold : ∀ (n : Nat) (t : String), s ∈ when n t ↔ 0 < n ∧ s = t := fun n t => hwhen (0 < n) t
  simp only [List.mem_append, List.mem_singleton, htold, hwhen, or_assoc]
  rfl

/-- Besides the steps for issues, no step begins like one of these. -/
theorem mem_nextSteps_of_initials (h : initials s = "Fix".toList ∨ initials s = "Res".toList) :
    s ∈ nextSteps r upgradeable ↔
      (0 < r.consistency.issues.length - r.consistency.syntaxErrors ∧
        s = structuralStep (r.consistency.issues.length - r.consistency.syntaxErrors)) ∨
      (0 < r.consistency.syntaxErrors ∧ s = syntaxStep r.consistency.syntaxErrors) := by
  have hother : ∀ t, initials t ≠ "Fix".toList → initials t ≠ "Res".toList → s ≠ t := by
    rintro t hfix hres rfl
    exact h.elim hfix hres
  have hreview : s ≠ "Review " ++ counted r.filesSkipped "skipped file" ++ " manually" := by
    apply hother <;> rw [String.append_assoc, initials_append "Review " _ (by decide)] <;> decide
  have hverify : s ≠ "Verify storage layout compatibility for " ++ counted upgradeable "upgradeable contract" := by
    apply hother <;> rw [initials_append "Verify storage layout compatibility for " _ (by decide)] <;> decide
  have hnone : s ≠ "No files were modified; revisit the migration plan" := hother _ (by decide) (by decide)
  have hrun : s ≠ "Run the project's test suite against the transformed contracts" := hother _ (by decide) (by decide)
  rw [mem_nextSteps]
  simp only [hreview, hverify, hnone, hrun, and_false, or_false]

theorem structuralStep_mem (n : Nat) : structuralStep n ∈ nextSteps r upgradeable ↔
    0 < r.consistency.issues.length - r.consistency.syntaxErrors ∧
      structuralStep n = structuralStep (r.consistency.issues.length - r.consistency.syntaxErrors) := by
  rw [mem_nextSteps_of_initials r upgradeable (.inl (initials_structuralStep n))]
  refine or_iff_left ?_
  rintro ⟨-, h⟩
  have h := congrArg initials h
  rw [initials_structuralStep, initials_syntaxStep] at h
  exact absurd h (by decide)

theorem syntaxStep_mem (n : Nat) : syntaxStep n ∈ nextSteps r upgradeable ↔
    0 < r.consistency.syntaxErrors ∧ syntaxStep n = syntaxStep r.consistency.syntaxErrors := by
  rw [mem_nextSteps_of_initials r upgradeable (.inr (initials_syntaxStep n))]
  refine or_iff_right ?_
  rintro ⟨-, h⟩
  have h := congrArg initials h
  rw [initials_structuralStep, initials_syntaxStep] at h
  exact absurd h (by decide)

/-- There is a step for issues between files exactly if there are some besides the malformed sources. -/
theorem exists_structuralStep_iff : (∃ n, structuralStep n ∈ nextSteps r upgradeable) ↔
    0 < r.consistency.issues.length - r.consistency.syntaxErrors := by
  constructor
  · rintro ⟨n, hn⟩
    exact ((structuralStep_mem r upgradeable n).mp hn).1
  · intro hpos
    exact ⟨_, (structuralStep_mem r upgradeable _).mpr ⟨hpos, rfl⟩⟩

theorem exists_syntaxStep_iff : (∃ n, syntaxStep n ∈ nextSteps r upgradeable) ↔ 0 < r.consistency.syntaxErrors := by
  constructor
  · rintro ⟨n, hn⟩
    exact ((syntaxStep_mem r upgradeable n).mp hn).1
  · intro hpos
    exact ⟨_, (syntaxStep_mem r upgradeable _).mpr ⟨hpos, rfl⟩⟩

end Steps

/-! ### The verdicts -/

section Verdicts

variable {α : Type} [Score α]

theorem bucket_validationScore (errors warnings : Nat) :
    (validationScore (α := α) errors warnings).2 = .low ↔ errors ≠ 0 := by
  unfold validationScore
  split_ifs <;> simp_all

/-- What a consistency report on sources says, and what a verdict on it says, of what is wrong with the sources. -/
structure Agree (a : Analysis) (sources : List Source) (rules : ConsistencyRules) (c : ConsistencyReport)
    (v : ValidationReport α) : Prop where
  passed : v.passed = true ↔ c.issues = []
  consistent : c.isConsistent = true ↔ c.issues = []
  filesChecked : c.filesChecked = sources.length
  checked : c.checked = true ↔ sources ≠ []
  syntaxErrors_le : c.syntaxErrors ≤ c.issues.length
  structural : c.issues.length - c.syntaxErrors =
    strayImports a.contracts (readable sources) rules + orphanedParents a.contracts (readable sources) rules
  toldStructural : (∃ n, structuralStep n ∈ v.nextSteps) ↔ c.importsValid = false ∨ c.inheritanceValid = false
  toldSyntax : (∃ n, syntaxStep n ∈ v.nextSteps) ↔ ∃ s ∈ sources, Solidity.parse? s.2 = none
  toldNumber : ∀ n, structuralStep n ∈ v.nextSteps → structuralStep n = structuralStep (c.issues.length - c.syntaxErrors)
  bucket : v.confidenceBucket = .low ↔ v.passed = false

/-- All verdicts on transformed sources agree, whatever else is in the report on the transformation. -/
theorem verdicts_agree (a : Analysis) (sources : List Source) (rules : ConsistencyRules) (r : TransformationReport α)
    (upgradeable : Nat) :
    let c := validateConsistency a sources rules
    Agree a sources rules c (validate { r with consistency := c } upgradeable) := by
  intro c
  have hc := validateConsistency_eq a sources rules
  have hmalformed : c.syntaxErrors = (unreadable sources).length := congrArg ConsistencyReport.syntaxErrors hc
  have hissues : c.issues.length = strayImports a.contracts (readable sources) rules +
      orphanedParents a.contracts (readable sources) rules + c.syntaxErrors := by
    rw [hmalformed, show c.issues = _ from congrArg ConsistencyReport.issues hc, List.length_map, List.length_append,
      List.length_map, length_structuralIssues]
  have himports : c.importsValid = false ↔ 0 < strayImports a.contracts (readable sources) rules := by
    rw [← importsValid_eq_false_iff, show c.importsValid = _ from congrArg ConsistencyReport.importsValid hc]
  have hparents : c.inheritanceValid = false ↔ 0 < orphanedParents a.contracts (readable sources) rules := by
    rw [← inheritanceValid_eq_false_iff,
      show c.inheritanceValid = _ from congrArg ConsistencyReport.inheritanceValid hc]
  have hnone : c.issues = [] ↔ c.issues.length = 0 := List.length_eq_zero_iff.symm
  refine ⟨List.isEmpty_iff, ?consistent, congrArg ConsistencyReport.filesChecked hc, ?checked, by omega, by omega,
    ?structural, ?malformed, fun n h => ((structuralStep_mem _ _ n).mp h).2, ?bucket⟩
  case consistent =>
    have hvalid : c.importsValid = true ↔ strayImports a.contracts (readable sources) rules = 0 := by
      rw [← Bool.not_eq_false, himports]
      omega
    have hdeclared : c.inheritanceValid = true ↔ orphanedParents a.contracts (readable sources) rules = 0 := by
      rw [← Bool.not_eq_false, hparents]
      omega
    rw [ConsistencyReport.isConsistent, Bool.and_eq_true, Bool.and_eq_true, beq_iff_eq, hvalid, hdeclared, hnone]
    omega
  case checked =>
    rw [show c.checked = _ from congrArg ConsistencyReport.checked hc]
    simp
  case structural =>
    have hcount : 0 < c.issues.length - c.syntaxErrors ↔
        0 < strayImports a.contracts (readable sources) rules ∨ 0 < orphanedParents a.contracts (readable sources) rules := by
      omega
    rw [himports, hparents, ← hcount]
    exact exists_structuralStep_iff _ _
  case malformed =>
    have hpos : 0 < c.syntaxErrors ↔ ∃ s ∈ sources, Solidity.parse? s.2 = none := by
      simp only [hmalformed, List.length_pos_iff_exists_mem, mem_unreadable]
    rw [← hpos]
    exact exists_syntaxStep_iff _ _
  case bucket =>
    show (validationScore (α := α) c.issues.length _).2 = .low ↔ c.issues.isEmpty = false
    rw [bucket_validationScore, ← Bool.not_eq_true, List.isEmpty_iff, hnone]

end Verdicts

end ContractMigration
