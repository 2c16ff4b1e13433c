import ContractMigration.Proofs.Report.Verdicts

/-! What became of files, and what a report counts of it. An outcome either holds new code, and then it was applied and has
no reason for being skipped, or it is a skipped one, and then nothing of it counts. So the three kinds of outcomes, with
changes, without any and skipped, make up all files, and just those with code are checked again. -/

namespace ContractMigration

section

variable {α : Type} [Score α]

namespace FileOutcome

/-! ### Single files -/

/-- What becomes of a file, by an answer or without one. -/
inductive Arises : FileOutcome α → Prop
  | skipped (path : String) (recommendations : List Recommendation) (reason : String) (warnings : List String) :
      Arises (skippedOutcome path recommendations reason warnings)
  | answered (path : String) (recommendations : List Recommendation) (response : TransformResponse) :
      Arises (fileOutcome path recommendations response)

/-- An outcome that says of itself what it is: applied exactly if there is code, skipped exactly if there is a reason, and
with a skipped file nothing was done for its recommendations. -/
structure Sound (o : FileOutcome α) : Prop where
  applied : o.action = .apply ↔ o.transformedCode.isSome = true
  reason : o.transformedCode.isSome = true ↔ o.skipReason = none
  changes : o.action = .skip → o.appliedChanges = []
  confidence : o.action = .skip → o.confidence = Score.ofNat 0
  recommendations : o.action = .skip → o.recommendationsSkipped = o.recommendationsTotal

theorem sound_skippedOutcome (path : String) (recommendations : List Recommendation) (reason : String)
    (warnings : List String) : (skippedOutcome path recommendations reason warnings : FileOutcome α).Sound :=
  ⟨by simp [skippedOutcome], by simp [skippedOutcome], fun _ => rfl, fun _ => rfl, fun _ => rfl⟩

theorem Arises.sound {o : FileOutcome α} (h : o.Arises) : o.Sound := by
  cases h with
  | skipped path recommendations reason warnings => exact sound_skippedOutcome path recommendations reason warnings
  | answered path recommendations response =>
    unfold fileOutcome
    split
    · exact sound_skippedOutcome _ _ _ _
    · exact sound_skippedOutcome _ _ _ _
    · exact ⟨by simp, by simp, nofun, nofun, nofun⟩

/-- An answer was applied and lists changes. -/
def Changed (o : FileOutcome α) : Prop := o.action = .apply ∧ o.appliedChanges ≠ []

/-- An answer was applied, but lists no change. -/
def Unchanged (o : FileOutcome α) : Prop := o.action = .apply ∧ o.appliedChanges = []

instance : DecidablePred (Changed : FileOutcome α → Prop) := fun _ => inferInstanceAs (Decidable (_ ∧ _))

instance : DecidablePred (Unchanged : FileOutcome α → Prop) := fun _ => inferInstanceAs (Decidable (_ ∧ _))

omit [Score α] in
theorem isModified_iff {o : FileOutcome α} : o.isModified = true ↔ o.Changed := by
  simp [isModified, Changed]

end FileOutcome

/-! ### Reports -/

namespace TransformationReport

/-- The counts of a report are those of its files: changed ones, skipped ones and those without changes are all files, and
the changes are those of the changed ones. -/
structure Tallied (r : TransformationReport α) : Prop where
  modified : r.filesModified = r.files.countP fun f => f.Changed
  skipped : r.filesSkipped = r.files.countP (·.action = .skip)
  files : r.filesModified + r.filesSkipped + r.files.countP (fun f => f.Unchanged) = r.files.length
  changes : r.totalChanges = ((r.files.filter fun f => f.Changed).map (·.appliedChanges.length)).sum

/-- Just the applied outcomes are checked again, each by its path and its code and in their order. -/
structure Revalidated (a : Analysis) (rules : ConsistencyRules) (r : TransformationReport α) : Prop where
  sources : ∃ sources : List Source, r.consistency = validateConsistency a sources rules ∧
    List.Forall₂ (fun f s => f.filePath = s.1 ∧ f.transformedCode = some s.2) (r.files.filter (·.action = .apply)) sources
  filesChecked : r.consistency.filesChecked = r.files.length - r.filesSkipped

end TransformationReport

section Aggregate

variable {files : List (FileOutcome α)}

omit [Score α] in
/-- A file was changed, skipped, or neither. -/
theorem length_eq_countP (files : List (FileOutcome α)) : files.countP (fun f => f.Changed) +
    files.countP (fun f => f.action = .skip) + files.countP (fun f => f.Unchanged) = files.length := by
  induction files with
  | nil => rfl
  | cons o files ih =>
    have hone : (if o.Changed then 1 else 0) + (if o.action = .skip then 1 else 0) + (if o.Unchanged then 1 else 0) = 1 := by
      cases haction : o.action with
      | skip => simp [FileOutcome.Changed, FileOutcome.Unchanged, haction]
      | apply =>
        by_cases hchanges : o.appliedChanges = [] <;>
          simp [FileOutcome.Changed, FileOutcome.Unchanged, haction, hchanges]
    simp only [List.countP_cons, List.length_cons, decide_eq_true_iff, ← ih]
    omega

/-- Files that are not changed have no changes. -/
theorem sum_changes (h : ∀ o ∈ files, o.Sound) : (files.map (·.appliedChanges.length)).sum =
    ((files.filter fun f => f.Changed).map (·.appliedChanges.length)).sum := by
  induction files with
  | nil => rfl
  | cons o files ih =>
    rw [List.forall_mem_cons] at h
    rw [List.map_cons, List.sum_cons, ih h.2]
    by_cases hchanged : o.Changed
    · simp [hchanged]
    · have hnone : o.appliedChanges = [] := by
        by_contra hne
        cases haction : o.action with
        | skip => exact hne (h.1.changes haction)
        | apply => exact hchanged ⟨haction, hne⟩
      simp [hchanged, hnone]

theorem tallied_aggregate (h : ∀ o ∈ files, o.Sound) (key : Key) (warnings : List String) (consistency : ConsistencyReport)
    (now : Timestamp) : (aggregate key files warnings consistency now).Tallied := by
  have hmodified : (files.filter FileOutcome.isModified).length = files.countP fun f => f.Changed := by
    rw [← List.countP_eq_length_filter]
    exact List.countP_congr fun o _ => by rw [FileOutcome.isModified_iff, decide_eq_true_iff]
  have hskipped : (files.filter fun f => f.action == .skip).length = files.countP fun f => f.action = .skip := by
    rw [← List.countP_eq_length_filter]
    exact List.countP_congr fun o _ => by simp
  refine ⟨hmodified, hskipped, ?_, sum_changes h⟩
  show (files.filter _).length + (files.filter _).length + _ = _
  rw [hmodified, hskipped]
  exact length_eq_countP files

/-- The code of the files that have any, with their paths. -/
theorem forall₂_sources (h : ∀ o ∈ files, o.Sound) :
    List.Forall₂ (fun f s => f.filePath = s.1 ∧ f.transformedCode = some s.2) (files.filter (·.action = .apply))
      (files.filterMap fun o => o.transformedCode.map fun code => (o.filePath, code)) := by
  induction files with
  | nil => exact .nil
  | cons o files ih =>
    rw [List.forall_mem_cons] at h
    rw [List.filterMap_cons]
    cases hcode : o.transformedCode with
    | none =>
      have hskip : o.action ≠ .apply := fun haction => by simpa [hcode] using h.1.applied.mp haction
      simpa [hskip] using ih h.2
    | some code =>
      have happly : o.action = .apply := h.1.applied.mpr (by rw [hcode]; rfl)
      simpa [happly, hcode] using ih h.2

/-- A report for which the code of the files was checked. -/
theorem revalidated_aggregate (h : ∀ o ∈ files, o.Sound) (a : Analysis) (rules : ConsistencyRules) (key : Key)
    (warnings : List String) (now : Timestamp) :
    (aggregate key files warnings (validateConsistency a
      (files.filterMap fun o => o.transformedCode.map fun code => (o.filePath, code)) rules) now).Revalidated a rules := by
  have hsources := forall₂_sources h
  refine ⟨⟨_, rfl, hsources⟩, ?_⟩
  have hskipped : (files.filter (·.action == .skip)).length + (files.filter (·.action = .apply)).length = files.length := by
    rw [← List.countP_eq_length_filter, ← List.countP_eq_length_filter,
      List.length_eq_countP_add_countP (fun f : FileOutcome α => f.action == .skip)]
    refine congrArg _ (List.countP_congr fun o _ => ?_)
    cases o.action <;> simp
  have hchecked : (validateConsistency a
      (files.filterMap fun o => o.transformedCode.map fun code => (o.filePath, code)) rules).filesChecked =
      (files.filter (·.action = .apply)).length := by
    rw [validateConsistency_eq, hsources.length_eq]
  show (validateConsistency a _ rules).filesChecked = files.length - (files.filter (·.action == .skip)).length
  rw [hchecked]
  omega

end Aggregate

end

end ContractMigration
