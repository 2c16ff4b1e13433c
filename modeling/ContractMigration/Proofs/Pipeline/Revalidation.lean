import ContractMigration.Proofs.Pipeline.Accounting
import ContractMigration.Proofs.Report.Outcomes
import Mathlib.Data.List.Forall2

/-! What the transformation of a repository reports. Whatever its computation is given, each outcome in its report is that of
an answer or of a file that was skipped, so the report counts all files, and just the code of those that were applied is
checked again, with the analysis that the computation has read. -/

namespace ContractMigration

theorem FileOutcome.IsFor.arises {path : String} {recommendations : List Recommendation} {o : FileOutcome Float}
    (h : IsFor path recommendations o) : o.Arises := by
  rcases h with ⟨reason, warnings, rfl⟩ | ⟨response, rfl⟩
  · exact .skipped path recommendations reason warnings
  · exact .answered path recommendations response

namespace Pipeline

open ContractMigration.Task

/-- Where the transformation of a repository ends well, its report is made of outcomes of answers and of skipped files, and
of the analysis that was read. -/
theorem ends_transformTask (p : Pipeline) (k : Key) :
    Ends (fun es made => ∀ x, made = .ok x → ∃ (A : Artifact Product) (a : Analysis) (outcomes : List (FileOutcome Float))
      (warnings : List String) (now : Timestamp), .received k .analysis (.ok A) ∈ es ∧ A.value = .analysis a ∧
        (∀ o ∈ outcomes, o.Arises) ∧ x.1 = .transform (p.transformReport k a outcomes warnings now)) []
      (p.transformTask k) := by
  refine ends_bind (ends_analysis k []) ?_ ?_
  · rintro _ e - x ⟨⟩
  rintro _ ⟨A, a⟩ ⟨r, rfl, hr⟩
  obtain ⟨rfl, ha⟩ := (hr A a).mp rfl
  refine ends_bind (ends_plan k _) ?_ ?_
  · rintro _ e - x ⟨⟩
  rintro _ ⟨P, plan⟩ ⟨r, rfl, -⟩
  refine ends_bind (ends_cachedIngest k _) ?_ ?_
  · rintro _ e - x ⟨⟩
  rintro _ i ⟨t, _, rfl, -⟩
  have hread : (Exchange.received k .analysis (.ok A) : Exchange Outside Product) ∈
      [] ++ [.received k .analysis (.ok A)] ++ [.received k .plan r] ++ [.looked k .tree t] := by simp
  have hfiles := Routine.Ends.buffered p.config.transformConcurrency (fun g es => p.ends_transformFile k i g.1 g.2 es)
    (Grouping.of a.sourceFiles plan.warnings plan.recommendations).groups
  refine ends_bind (ends_lift ((hfiles _).keeps hread)) ?_ ?_
  · rintro _ e ⟨_, ⟨⟩, -⟩
  rintro es outcomes ⟨_, ⟨⟩, ⟨houtcomes, -⟩, hread⟩
  rintro now x ⟨⟩
  have harises : List.Forall₂ (fun o (_ : String × List Recommendation) => o.Arises ∧ True) outcomes
      (Grouping.of a.sourceFiles plan.warnings plan.recommendations).groups :=
    houtcomes.flip.imp fun _ _ h => ⟨FileOutcome.IsFor.arises h, trivial⟩
  exact ⟨A, a, outcomes, _, now, List.mem_append_left _ hread, ha, ((List.forall₂_and_left _ _).mp harises).1, rfl⟩

/-- A report on the transformation of some files, after an analysis. -/
structure Counts (a : Analysis) (rules : ConsistencyRules) (outcomes : List (FileOutcome Float))
    (r : TransformationReport Float) : Prop where
  files : r.files = outcomes
  sound : ∀ o ∈ outcomes, o.Sound
  tallied : r.Tallied
  revalidated : r.Revalidated a rules

theorem counts_transformReport (p : Pipeline) (k : Key) (a : Analysis) {outcomes : List (FileOutcome Float)}
    (h : ∀ o ∈ outcomes, o.Arises) (warnings : List String) (now : Timestamp) :
    Counts a p.config.consistencyRules outcomes (p.transformReport k a outcomes warnings now).transformation := by
  have hsound : ∀ o ∈ outcomes, o.Sound := fun o ho => (h o ho).sound
  exact ⟨rfl, hsound, tallied_aggregate hsound _ _ _ _, revalidated_aggregate hsound _ _ _ _ _⟩

/-- What a report says of outcomes that are those of answers and of skipped files: on whatever check of the code it is, its
counts are right, and the one that is made for a repository is on the code of the files that were applied. What the
computation of a repository leaves is such a report, on the analysis that it has read. -/
theorem counts_outcomes (p : Pipeline) (k : Key) :
    (∀ outcomes : List (FileOutcome Float), (∀ o ∈ outcomes, o.Arises) → ∀ warnings now,
      (∀ o ∈ outcomes, o.Sound) ∧ (∀ consistency, (aggregate k outcomes warnings consistency now).Tallied) ∧
      ∀ a, Counts a p.config.consistencyRules outcomes (p.transformReport k a outcomes warnings now).transformation) ∧
    (p.task k .transform).Ends (fun es made => ∀ o sources, made = .ok (.transform o, sources) →
      ∃ (A : Artifact Product) (a : Analysis) (outcomes : List (FileOutcome Float)),
        .received k .analysis (.ok A) ∈ es ∧ A.value = .analysis a ∧ (∀ o ∈ outcomes, o.Arises) ∧
        Counts a p.config.consistencyRules outcomes o.transformation) [] := by
  refine ⟨fun outcomes h warnings now => ?_,
    Routine.Ends.mono (p.ends_transformTask k) fun es made h o sources hmade => ?_⟩
  · have hsound : ∀ o ∈ outcomes, o.Sound := fun o ho => (h o ho).sound
    exact ⟨hsound, fun consistency => tallied_aggregate hsound k warnings consistency now,
      fun a => p.counts_transformReport k a h warnings now⟩
  · obtain ⟨A, a, outcomes, warnings, now, hread, ha, harises, ho⟩ := h _ hmade
    cases ho
    exact ⟨A, a, outcomes, hread, ha, harises, p.counts_transformReport k a harises warnings now⟩

/-- A file that was changed, one for which the answer has code but no change, and one that was skipped. -/
theorem counts_outcomes_three :
    let k : Key := ⟨"acme", "vaults"⟩
    let a : Analysis := ⟨k, [], ⟨[], [], []⟩, ⟨[], 0, ""⟩, ⟨[], 0, ""⟩, ⟨1, 1, 0, 0, 0, 0, 0, 0, 0, 0, 0, 0, 0, 0⟩, [],
      ["src/Vault.sol"], "", ⟨0, 0⟩⟩
    let outcomes : List (FileOutcome Float) :=
      [fileOutcome "src/Vault.sol" [] ⟨.apply, [⟨"gate removed", none, none⟩], some "contract Vault \x7b\x7d", []⟩,
        fileOutcome "src/Proxy.sol" [] ⟨.apply, [], some "contract Proxy \x7b\x7d", []⟩,
        skippedOutcome "src/Gone.sol" [] "no source" []]
    let r := (transformReport ⟨.default, false, false, false⟩ k a outcomes [] ⟨0, 0⟩).transformation
    (∀ o ∈ outcomes, o.Arises) ∧ r.filesModified = 1 ∧ r.filesSkipped = 1 ∧ r.totalChanges = 1 ∧
      r.consistency.filesChecked = 2 := by
  intro k a outcomes r
  have harises : ∀ o ∈ outcomes, o.Arises := by
    simp only [outcomes, List.forall_mem_cons, List.not_mem_nil, false_imp_iff, implies_true, and_true]
    exact ⟨.answered .., .answered .., .skipped ..⟩
  have h := ((counts_outcomes ⟨.default, false, false, false⟩ k).1 outcomes harises [] ⟨0, 0⟩).2.2 a
  exact ⟨harises, h.tallied.modified, h.tallied.skipped, h.tallied.changes, h.revalidated.filesChecked⟩

end Pipeline

end ContractMigration
