import ContractMigration.Proofs.Graph.FirstSeen
import ContractMigration.Report.Outcome
import Mathlib.Data.List.Count
import Mathlib.Data.Finset.Card
import Mathlib.Data.Finset.SDiff

/-! How many recommendations for a file are skipped. A change stands for the recommendation that it follows, and several
that follow the same one stand for this one only; a change that follows none stands for one more, whichever that is. What
the changes stand for grows by one or not at all with each further change, and all the rest follows from this step. -/

namespace ContractMigration

/-- The change follows none of the recommendations. -/
def AppliedChange.Astray (total : ℕ) (c : AppliedChange) : Prop := ∀ i ∈ c.recommendation, total ≤ i

instance (total : ℕ) : DecidablePred (AppliedChange.Astray total) := fun c =>
  inferInstanceAs (Decidable (∀ i ∈ c.recommendation, total ≤ i))

/-- The recommendations that the changes follow. -/
def followed (applied : List AppliedChange) (total : ℕ) : Finset ℕ :=
  (Finset.range total).filter fun i => ∃ c ∈ applied, c.recommendation = some i

/-- How many recommendations the changes stand for. -/
def coverage (applied : List AppliedChange) (total : ℕ) : ℕ :=
  (followed applied total).card + applied.countP (·.Astray total)

/-- The number of recommendations that are skipped: those that the changes do not stand for. -/
structure SkipsRest (applied : List AppliedChange) (total skipped : ℕ) : Prop where
  exact : (skipped : ℤ) = max 0 (total - (followed applied total).card - applied.countP (·.Astray total))
  /-- No more are skipped than no change follows. -/
  le_open : skipped ≤ (Finset.range total \ followed applied total).card
  covers : total ≤ applied.length + skipped

variable {applied : List AppliedChange} {total : ℕ}

/-! ### What changes stand for -/

theorem mem_followed {i : ℕ} : i ∈ followed applied total ↔ i < total ∧ ∃ c ∈ applied, c.recommendation = some i := by
  simp [followed]

theorem followed_congr {xs ys : List AppliedChange} (h : ∀ c, c ∈ xs ↔ c ∈ ys) (total : ℕ) :
    followed xs total = followed ys total := by
  ext i
  simp [mem_followed, h]

theorem coverage_perm {xs ys : List AppliedChange} (h : xs.Perm ys) (total : ℕ) : coverage xs total = coverage ys total := by
  rw [coverage, coverage, followed_congr fun c => h.mem_iff, h.countP_eq]

/-- A further change stands for one more, unless it follows a recommendation that another one follows already. -/
theorem coverage_concat (applied : List AppliedChange) (c : AppliedChange) (total : ℕ) :
    coverage (applied ++ [c]) total =
      coverage applied total + if ∃ i ∈ c.recommendation, i ∈ followed applied total then 0 else 1 := by
  by_cases hastray : c.Astray total
  · have hsame : followed (applied ++ [c]) total = followed applied total := by
      ext i
      have hnot : i < total → c.recommendation ≠ some i := fun hi hc => by have := hastray i hc; omega
      simp only [mem_followed, List.mem_append, List.mem_singleton, or_and_right, exists_or, exists_eq_left]
      exact and_congr_right fun hi => or_iff_left (hnot hi)
    have hnone : ¬∃ i ∈ c.recommendation, i ∈ followed applied total := by
      rintro ⟨i, hc, hi⟩
      have := hastray i hc
      have := (mem_followed.mp hi).1
      omega
    rw [if_neg hnone, coverage, coverage, hsame, List.countP_append, List.countP_singleton]
    simp [hastray, Nat.add_assoc]
  · obtain ⟨i, hc, hi⟩ : ∃ i, c.recommendation = some i ∧ i < total := by
      simpa [AppliedChange.Astray] using hastray
    have hmore : followed (applied ++ [c]) total = insert i (followed applied total) := by
      ext j
      simp only [mem_followed, List.mem_append, List.mem_singleton, or_and_right, exists_or, exists_eq_left, hc,
        Finset.mem_insert, Option.some.injEq]
      constructor
      · rintro ⟨hj, hold | hnew⟩
        · exact .inr ⟨hj, hold⟩
        · exact .inl hnew.symm
      · rintro (rfl | ⟨hj, hold⟩)
        · exact ⟨hi, .inr rfl⟩
        · exact ⟨hj, .inl hold⟩
    simp only [coverage, hmore, Finset.card_insert_eq_ite, List.countP_append, List.countP_singleton, hastray, hc]
    by_cases hold : i ∈ followed applied total
    · simp [hold]
    · simp [hold]
      omega

theorem coverage_le_length (applied : List AppliedChange) (total : ℕ) : coverage applied total ≤ applied.length := by
  induction applied using List.reverseRecOn with
  | nil => simp [coverage, followed]
  | append_singleton applied c ih =>
    rw [coverage_concat, List.length_append, List.length_singleton]
    split_ifs <;> omega

/-! ### What is skipped -/

theorem length_firstSeen {α : Type} [DecidableEq α] (xs : List α) : (firstSeen xs).length = xs.toFinset.card := by
  rw [← List.toFinset_card_of_nodup (nodup_firstSeen xs)]
  congr 1
  ext x
  simp

theorem skippedRecommendations_eq (applied : List AppliedChange) (total : ℕ) :
    skippedRecommendations applied total = total - coverage applied total := by
  have hfollowed : (namedRecommendations applied total).toFinset = followed applied total := by
    ext i
    simp [namedRecommendations, mem_followed, and_comm]
  have hastray : unnamedChanges applied total = applied.countP (·.Astray total) := by
    rw [unnamedChanges, ← List.countP_eq_length_filter]
    refine List.countP_congr fun c _ => ?_
    cases hc : c.recommendation <;> simp [AppliedChange.Astray, hc]
  rw [skippedRecommendations, length_firstSeen, hfollowed, hastray, coverage]

theorem skipsRest_sub_coverage (applied : List AppliedChange) (total : ℕ) :
    SkipsRest applied total (total - coverage applied total) where
  exact := by
    rw [coverage]
    omega
  le_open := by
    have hsub : followed applied total ⊆ Finset.range total := Finset.filter_subset _ _
    rw [Finset.card_sdiff_of_subset hsub, Finset.card_range, coverage]
    omega
  covers := by
    have := coverage_le_length applied total
    omega

variable {α : Type} [Score α]

/-- An answer with code is taken with all its changes, and any other one with none. -/
theorem fileOutcome_changes (path : String) (recommendations : List Recommendation) (response : TransformResponse) :
    (fileOutcome path recommendations response : FileOutcome α).appliedChanges =
      (if response.action = .apply ∧ response.transformedCode.isSome then response.appliedChanges else []) ∧
    (fileOutcome path recommendations response : FileOutcome α).recommendationsSkipped =
      recommendations.length -
        coverage (fileOutcome path recommendations response : FileOutcome α).appliedChanges recommendations.length := by
  have hnone : coverage [] recommendations.length = 0 := by simp [coverage, followed]
  unfold fileOutcome
  split
  next haction => simp [skippedOutcome, haction, hnone]
  next haction hcode => simp [skippedOutcome, hcode, hnone]
  next haction hcode => simp [haction, hcode, skippedRecommendations_eq]

/-- The number of recommendations that an answer leaves, whatever else is in it. The changes that are taken over are those
of the answer if it has code for the file, and none otherwise; what is skipped is what these do not stand for. So their
order does not matter, one more that follows a recommendation which another one follows already does not matter either,
and any other one lowers the number by one at most and never raises it. -/
theorem skipped_by_changes (path : String) (recommendations : List Recommendation) (response : TransformResponse) :
    let outcome (applied : List AppliedChange) : FileOutcome α :=
      fileOutcome path recommendations { response with appliedChanges := applied }
    let skipped (applied : List AppliedChange) : ℕ := (outcome applied).recommendationsSkipped
    (∀ applied, SkipsRest (outcome applied).appliedChanges recommendations.length (skipped applied) ∧
      (outcome applied).appliedChanges =
        if response.action = .apply ∧ response.transformedCode.isSome then applied else []) ∧
    (∀ xs ys, xs.Perm ys → skipped xs = skipped ys) ∧
    (∀ applied c i, i ∈ followed applied recommendations.length → c.recommendation = some i →
      skipped (applied ++ [c]) = skipped applied) ∧
    ∀ applied c, skipped (applied ++ [c]) ≤ skipped applied ∧ skipped applied ≤ skipped (applied ++ [c]) + 1 := by
  intro outcome skipped
  have hchanges : ∀ applied, (outcome applied).appliedChanges =
      if response.action = .apply ∧ response.transformedCode.isSome then applied else [] :=
    fun applied => (fileOutcome_changes path recommendations { response with appliedChanges := applied }).1
  have hskipped : ∀ applied, skipped applied =
      recommendations.length - coverage (outcome applied).appliedChanges recommendations.length :=
    fun applied => (fileOutcome_changes path recommendations { response with appliedChanges := applied }).2
  refine ⟨fun applied => ⟨?rest, hchanges applied⟩, fun xs ys h => ?order, fun applied c i hi hc => ?repeated,
    fun applied c => ?further⟩
  case rest =>
    rw [hskipped]
    exact skipsRest_sub_coverage _ _
  all_goals simp only [hskipped, hchanges]
  case order =>
    split_ifs
    · rw [coverage_perm h]
    · rfl
  case repeated =>
    split_ifs
    · rw [coverage_concat, if_pos ⟨i, hc, hi⟩, Nat.add_zero]
    · rfl
  case further =>
    split_ifs
    · rw [coverage_concat]
      split_ifs <;> omega
    · omega

/-- Of four recommendations one is followed twice, one change follows a fifth that is not there and one follows none: one
recommendation is left. -/
theorem skipped_by_changes_four :
    let recommendation : Recommendation := ⟨"src/Vault.sol", none, .security, "", "", .high⟩
    let changes : List AppliedChange := [⟨"", some 2, none⟩, ⟨"", none, none⟩, ⟨"", some 2, none⟩, ⟨"", some 4, none⟩]
    let outcome : FileOutcome Rat :=
      fileOutcome "src/Vault.sol" (List.replicate 4 recommendation) ⟨.apply, changes, some "contract Vault \x7b\x7d", []⟩
    outcome.recommendationsSkipped = 1 := by
  intro recommendation changes outcome
  have h := (skipped_by_changes (α := Rat) "src/Vault.sol" (List.replicate 4 recommendation)
    ⟨.apply, changes, some "contract Vault \x7b\x7d", []⟩).1 changes
  rw [h.2] at h
  have hrest : max 0 ((4 : ℤ) - (followed changes 4).card - changes.countP (·.Astray 4)) = 1 := by decide
  exact_mod_cast h.1.exact.trans hrest

end ContractMigration
