import ContractMigration.Proofs.Report.Outcomes
import Mathlib.Algebra.Order.BigOperators.Group.List
import Mathlib.Algebra.Order.Field.Rat
import Mathlib.Tactic.Linarith
import Mathlib.Tactic.Positivity

/-! How sure a transformation is of itself, in exact arithmetic. The confidence in a file is a mean of weights, scaled by
the share of what was not skipped; the confidence in all files is the mean over those that were changed, to the nearest
hundredth. Bounds go through means, shares and rounding one after the other. That no quotient has a divisor that is not
positive is said by computing the same once more with numbers that know of such a quotient. -/

namespace ContractMigration

/-! ### Arithmetic with guarded quotients -/

/-- A rational number, or nothing if a number was divided on the way by one that is not positive. -/
def Guarded : Type := Option Rat

namespace Guarded

/-- A number about which nothing is wrong. -/
def sound (q : Rat) : Guarded := some q

instance : Score Guarded where
  add := Option.map₂ (· + ·)
  sub := Option.map₂ (· - ·)
  mul := Option.map₂ (· * ·)
  div a b := Option.bind a fun x => Option.bind b fun y => if 0 < y then some (x / y) else none
  decimal units places := sound (Score.decimal units places)
  ofNat n := sound (Score.ofNat n)
  larger := Option.map₂ Score.larger
  roundHundredths := Option.map Score.roundHundredths

theorem add_sound (x y : Rat) : sound x + sound y = sound (x + y) := rfl

theorem div_sound {y : Rat} (x : Rat) (hy : 0 < y) : sound x / sound y = sound (x / y) := if_pos hy

theorem weight_sound (l : Level) : (l.weight : Guarded) = sound l.weight := by cases l <;> rfl

theorem sum_sound (xs : List Rat) : Score.sum (xs.map sound) = sound (Score.sum xs) := by
  cases xs with
  | nil => rfl
  | cons a rest =>
    simp only [List.map_cons, Score.sum]
    induction rest generalizing a with
    | nil => rfl
    | cons b rest ih =>
      rw [List.map_cons, List.foldl_cons, List.foldl_cons, add_sound]
      exact ih (a + b)

/-- The mean of some numbers divides by how many they are. -/
theorem mean_sound {xs : List Rat} (h : xs ≠ []) : Score.mean (xs.map sound) = sound (Score.mean xs) := by
  have hpos : (0 : Rat) < xs.length := Nat.cast_pos.mpr (List.length_pos_iff.mpr h)
  rw [Score.mean, sum_sound, List.length_map]
  exact div_sound _ hpos

end Guarded

/-! ### Means -/

namespace Score

theorem sum_eq (xs : List Rat) : Score.sum xs = xs.sum := by
  cases xs with
  | nil => rfl
  | cons a rest =>
    simp only [Score.sum, List.sum_cons]
    induction rest generalizing a with
    | nil => simp
    | cons b rest ih => rw [List.foldl_cons, ih, List.sum_cons, add_assoc]

theorem mean_eq (xs : List Rat) : Score.mean xs = xs.sum / xs.length := by
  rw [Score.mean, sum_eq]
  rfl

/-- A mean lies between the bounds of what it is taken of. -/
theorem mean_mem {xs : List Rat} (h : xs ≠ []) {a b : Rat} (hxs : ∀ x ∈ xs, a ≤ x ∧ x ≤ b) :
    a ≤ Score.mean xs ∧ Score.mean xs ≤ b := by
  have hpos : (0 : Rat) < xs.length := Nat.cast_pos.mpr (List.length_pos_iff.mpr h)
  have hlow := List.card_nsmul_le_sum xs a fun x hx => (hxs x hx).1
  have hhigh := List.sum_le_card_nsmul xs b fun x hx => (hxs x hx).2
  rw [nsmul_eq_mul] at hlow hhigh
  rw [mean_eq, le_div_iff₀ hpos, div_le_iff₀ hpos]
  exact ⟨by linarith, by linarith⟩

end Score

/-! ### Rounding -/

namespace Rat

/-- No integer is nearer. -/
theorem abs_roundAway_sub_le (q : Rat) : |(roundAway q : Rat) - q| ≤ 1 / 2 := by
  rw [roundAway]
  split_ifs with hq
  · have hlow := Rat.floor_le (q + 1 / 2)
    have hhigh := @Rat.lt_floor (q + 1 / 2)
    rw [abs_le]
    constructor <;> linarith
  · have hlow := @Rat.le_ceil (q - 1 / 2)
    have hhigh := @Rat.ceil_lt (q - 1 / 2)
    rw [abs_le]
    constructor <;> linarith

/-- Rounding does not pass over integers. -/
theorem le_roundAway {q : Rat} {n : ℤ} (h : n ≤ q) : n ≤ roundAway q := by
  have hnear := (abs_le.mp (abs_roundAway_sub_le q)).1
  have hlt : ((n - 1 : ℤ) : Rat) < roundAway q := by
    push_cast
    linarith
  exact Int.sub_one_lt_iff.mp (Int.cast_lt.mp hlt)

theorem roundAway_le {q : Rat} {n : ℤ} (h : q ≤ n) : roundAway q ≤ n := by
  have hnear := (abs_le.mp (abs_roundAway_sub_le q)).2
  have hlt : (roundAway q : Rat) < ((n + 1 : ℤ) : Rat) := by
    push_cast
    linarith
  exact Int.lt_add_one_iff.mp (Int.cast_lt.mp hlt)

end Rat

namespace Score

theorem abs_roundHundredths_sub_le (q : Rat) : |Score.roundHundredths q - q| ≤ 1 / 200 := by
  have hnear := abs_le.mp (Rat.abs_roundAway_sub_le (q * 100))
  show |(Rat.roundAway (q * 100) : Rat) / 100 - q| ≤ 1 / 200
  rw [abs_le]
  constructor <;> linarith

/-- Rounding does not pass over hundredths. -/
theorem roundHundredths_mem {q : Rat} {m n : ℤ} (h : (m : Rat) / 100 ≤ q ∧ q ≤ n / 100) :
    (m : Rat) / 100 ≤ Score.roundHundredths q ∧ Score.roundHundredths q ≤ n / 100 := by
  have hlow : (m : Rat) ≤ Rat.roundAway (q * 100) := Int.cast_le.mpr (Rat.le_roundAway (by linarith))
  have hhigh : (Rat.roundAway (q * 100) : Rat) ≤ n := Int.cast_le.mpr (Rat.roundAway_le (by linarith))
  exact ⟨div_le_div_of_nonneg_right hlow (by norm_num), div_le_div_of_nonneg_right hhigh (by norm_num)⟩

theorem roundHundredths_zero : Score.roundHundredths (0 : Rat) = 0 := by
  have h := roundHundredths_mem (q := 0) (m := 0) (n := 0) (by simp)
  simpa using le_antisymm h.2 h.1

end Score

/-! ### Single files -/

theorem Level.weight_mem (l : Level) : (4 / 10 : Rat) ≤ l.weight ∧ l.weight ≤ (9 / 10 : Rat) := by
  have hhigh : (Level.high.weight : Rat) = 9 / 10 := by norm_num [Level.weight, Score.decimal]
  have hmedium : (Level.medium.weight : Rat) = 7 / 10 := by norm_num [Level.weight, Score.decimal]
  have hlow : (Level.low.weight : Rat) = 4 / 10 := by norm_num [Level.weight, Score.decimal]
  cases l with
  | high => rw [hhigh]; norm_num
  | medium => rw [hmedium]; norm_num
  | low => rw [hlow]; norm_num

/-- The share of what was applied in what was applied and what was skipped. -/
def appliedShare (applied skipped : ℕ) : Rat := applied / (applied + skipped)

theorem appliedShare_mem {applied : ℕ} (h : 0 < applied) (skipped : ℕ) :
    0 < appliedShare applied skipped ∧ appliedShare applied skipped ≤ 1 := by
  have hpos : (0 : Rat) < applied := Nat.cast_pos.mpr h
  have hskipped : (0 : Rat) ≤ skipped := Nat.cast_nonneg skipped
  rw [appliedShare]
  exact ⟨by positivity, (div_le_one (by positivity)).mpr (by linarith)⟩

theorem appliedShare_anti (applied : ℕ) {skipped skipped' : ℕ} (h : skipped ≤ skipped') :
    appliedShare applied skipped' ≤ appliedShare applied skipped := by
  rcases Nat.eq_zero_or_pos applied with rfl | hpos
  · simp [appliedShare]
  · have happlied : (0 : Rat) < applied := Nat.cast_pos.mpr hpos
    have hle : (skipped : Rat) ≤ skipped' := Nat.cast_le.mpr h
    exact div_le_div_of_nonneg_left happlied.le (by positivity) (by linarith)

section Files

variable (applied : List AppliedChange) (recommendations : List Recommendation) (skipped : ℕ)

/-- The weights of the changes. -/
def weights : List Rat := applied.map fun c => (c.levelAmong recommendations).weight

theorem fileConfidence_eq : (fileConfidence applied recommendations skipped : Rat) =
    Score.mean (weights applied recommendations) * appliedShare applied.length skipped := by
  cases applied with
  | nil => simp [fileConfidence, appliedShare, Score.ofNat]
  | cons c applied =>
    simp [fileConfidence, appliedShare, weights, Score.ofNat]

theorem fileConfidence_sound : (fileConfidence applied recommendations skipped : Guarded) =
    Guarded.sound (fileConfidence applied recommendations skipped) := by
  by_cases h : applied = []
  · rw [fileConfidence, fileConfidence, h]
    rfl
  · have hempty : ¬applied.isEmpty := by simpa using h
    have hpos : (0 : Rat) < (applied.length + skipped : ℕ) :=
      Nat.cast_pos.mpr (Nat.add_pos_left (List.length_pos_iff.mpr h) skipped)
    have hweights : (applied.map fun c => ((c.levelAmong recommendations).weight : Guarded)) =
        (weights applied recommendations).map Guarded.sound := by
      simp [weights, Guarded.weight_sound]
    rw [fileConfidence, fileConfidence, if_neg hempty, if_neg hempty, hweights,
      Guarded.mean_sound (by simpa [weights] using h)]
    have hshare := Guarded.div_sound (applied.length : Rat) hpos
    exact congrArg (_ * ·) hshare

theorem mean_weights_mem (h : applied ≠ []) :
    4 / 10 ≤ Score.mean (weights applied recommendations) ∧ Score.mean (weights applied recommendations) ≤ 9 / 10 := by
  refine Score.mean_mem (by simpa [weights] using h) fun w hw => ?_
  obtain ⟨c, -, rfl⟩ := List.mem_map.mp hw
  exact Level.weight_mem _

theorem fileConfidence_mem (h : applied ≠ []) :
    4 / 10 * appliedShare applied.length skipped ≤ fileConfidence applied recommendations skipped ∧
      fileConfidence applied recommendations skipped ≤ 9 / 10 * appliedShare applied.length skipped := by
  have hmean := mean_weights_mem applied recommendations h
  have hshare := (appliedShare_mem (List.length_pos_iff.mpr h) skipped).1.le
  rw [fileConfidence_eq]
  exact ⟨mul_le_mul_of_nonneg_right hmean.1 hshare, mul_le_mul_of_nonneg_right hmean.2 hshare⟩

theorem fileConfidence_eq_zero_iff : (fileConfidence applied recommendations skipped : Rat) = 0 ↔ applied = [] := by
  refine ⟨fun hzero => ?_, fun h => by simp [fileConfidence, h, Score.ofNat]⟩
  by_contra h
  have hlow := (fileConfidence_mem applied recommendations skipped h).1
  have hshare := (appliedShare_mem (List.length_pos_iff.mpr h) skipped).1
  linarith

/-- What is skipped does not raise the confidence. -/
theorem fileConfidence_anti {skipped skipped' : ℕ} (h : skipped ≤ skipped') :
    (fileConfidence applied recommendations skipped' : Rat) ≤ fileConfidence applied recommendations skipped := by
  by_cases hnil : applied = []
  · rw [(fileConfidence_eq_zero_iff applied recommendations skipped').mpr hnil,
      (fileConfidence_eq_zero_iff applied recommendations skipped).mpr hnil]
  · have hmean := (mean_weights_mem applied recommendations hnil).1
    rw [fileConfidence_eq, fileConfidence_eq]
    exact mul_le_mul_of_nonneg_left (appliedShare_anti _ h) (by linarith)

/-- No file is surer than the surest change, and none less sure than nothing. -/
theorem fileConfidence_mem_unit :
    0 ≤ (fileConfidence applied recommendations skipped : Rat) ∧
      fileConfidence applied recommendations skipped ≤ (9 / 10 : Rat) := by
  by_cases h : applied = []
  · rw [(fileConfidence_eq_zero_iff applied recommendations skipped).mpr h]
    norm_num
  · have hbounds := fileConfidence_mem applied recommendations skipped h
    have hshare := appliedShare_mem (List.length_pos_iff.mpr h) skipped
    exact ⟨by linarith, by linarith⟩

end Files

namespace FileOutcome

/-- An outcome of an answer, or without one, has the confidence of a file, whatever was applied. -/
theorem Arises.confidence_mem {o : FileOutcome Rat} (h : o.Arises) : 0 ≤ o.confidence ∧ o.confidence ≤ 9 / 10 := by
  have hskip : 0 ≤ (Score.ofNat 0 : Rat) ∧ Score.ofNat 0 ≤ (9 / 10 : Rat) := by norm_num [Score.ofNat]
  cases h with
  | skipped path recommendations reason warnings => exact hskip
  | answered path recommendations response =>
    unfold fileOutcome
    split
    · exact hskip
    · exact hskip
    · exact fileConfidence_mem_unit _ _ _

/-- The same outcome with its confidence in other numbers. -/
def map {α β : Type} (f : α → β) (o : FileOutcome α) : FileOutcome β := { o with confidence := f o.confidence }

end FileOutcome

/-! ### All files -/

/-- The mean confidence of the files that were changed. -/
def meanChanged (files : List (FileOutcome Rat)) : Rat :=
  ((files.filter fun f => f.Changed).map (·.confidence)).sum / files.countP fun f => f.Changed

theorem filter_isModified {α : Type} (files : List (FileOutcome α)) :
    files.filter FileOutcome.isModified = files.filter fun f => f.Changed :=
  List.filter_congr fun o _ => by rw [Bool.eq_iff_iff, FileOutcome.isModified_iff, decide_eq_true_iff]

theorem overallConfidence_eq (files : List (FileOutcome Rat)) :
    overallConfidence files = Score.roundHundredths (meanChanged files) := by
  rw [overallConfidence, filter_isModified, meanChanged, List.countP_eq_length_filter]
  by_cases h : (files.filter fun f => f.Changed) = []
  · simp [h, Score.roundHundredths_zero, Score.ofNat]
  · rw [if_neg (by simpa using h), Score.mean_eq, List.length_map]

theorem meanChanged_eq (files : List (FileOutcome Rat)) :
    meanChanged files = Score.mean ((files.filter fun f => f.Changed).map (·.confidence)) := by
  rw [meanChanged, Score.mean_eq, List.length_map, List.countP_eq_length_filter]

theorem overallConfidence_sound (files : List (FileOutcome Rat)) :
    overallConfidence (files.map (FileOutcome.map Guarded.sound)) = Guarded.sound (overallConfidence files) := by
  have hfilter : (files.map (FileOutcome.map Guarded.sound)).filter FileOutcome.isModified =
      (files.filter FileOutcome.isModified).map (FileOutcome.map Guarded.sound) := by
    rw [List.filter_map]
    rfl
  simp only [overallConfidence, hfilter]
  by_cases h : files.filter FileOutcome.isModified = []
  · rw [h]
    rfl
  · have hconfidence : (((files.filter FileOutcome.isModified).map (FileOutcome.map Guarded.sound)).map
        FileOutcome.confidence) = ((files.filter FileOutcome.isModified).map FileOutcome.confidence).map Guarded.sound := by
      simp [FileOutcome.map]
    rw [if_neg (by simpa using h), if_neg (by simpa using h), hconfidence, Guarded.mean_sound (by simpa using h)]
    rfl

/-- If no file that was changed is surer than nine tenths, all files together are not. -/
theorem overallConfidence_mem {files : List (FileOutcome Rat)}
    (h : ∀ o ∈ files, o.Changed → 0 ≤ o.confidence ∧ o.confidence ≤ 9 / 10) :
    0 ≤ overallConfidence files ∧ overallConfidence files ≤ (9 / 10 : Rat) := by
  have hmean : 0 ≤ meanChanged files ∧ meanChanged files ≤ 9 / 10 := by
    by_cases hnil : (files.filter fun f => f.Changed) = []
    · norm_num [meanChanged, hnil]
    · rw [meanChanged_eq]
      refine Score.mean_mem (by simpa using hnil) fun x hx => ?_
      obtain ⟨o, ho, rfl⟩ := List.mem_map.mp hx
      have ho' := List.mem_filter.mp ho
      exact h o ho'.1 (of_decide_eq_true ho'.2)
  have hround := Score.roundHundredths_mem (q := meanChanged files) (m := 0) (n := 90) (by norm_num; exact hmean)
  rw [overallConfidence_eq]
  norm_num at hround
  exact hround

/-- Only the files that were changed matter. -/
theorem overallConfidence_insert {α : Type} [Score α] (before : List (FileOutcome α)) {o : FileOutcome α} (h : ¬o.Changed)
    (after : List (FileOutcome α)) : overallConfidence (before ++ o :: after) = overallConfidence (before ++ after) := by
  have hfilter : (before ++ o :: after).filter FileOutcome.isModified = (before ++ after).filter FileOutcome.isModified := by
    have hout : ¬o.isModified := fun hin => h (FileOutcome.isModified_iff.mp hin)
    simp [hout]
  simp only [overallConfidence, hfilter]

/-- What is known of confidence in exact arithmetic. That in a file divides by positive numbers only; it is nothing if
there are no changes, else it lies within the weights scaled by the share of what was applied, and it does not rise with
what is skipped. That in all files divides by positive numbers only, is the mean over the files that were changed up to
half a hundredth, and does not see the others; it stays within nine tenths if the files do, as all those do that arise
from answers. -/
theorem confidence_bounds :
    (∀ (applied : List AppliedChange) (recommendations : List Recommendation) (skipped : ℕ),
      let confidence (skipped : ℕ) : Rat := fileConfidence applied recommendations skipped
      let share : Rat := appliedShare applied.length skipped
      fileConfidence applied recommendations skipped = Guarded.sound (confidence skipped) ∧
      (confidence skipped = 0 ↔ applied = []) ∧
      (applied ≠ [] → 4 / 10 * share ≤ confidence skipped ∧ confidence skipped ≤ 9 / 10 * share) ∧
      ∀ skipped', skipped ≤ skipped' → confidence skipped' ≤ confidence skipped) ∧
    (∀ o : FileOutcome Rat, o.Arises → 0 ≤ o.confidence ∧ o.confidence ≤ 9 / 10) ∧
    ∀ (key : Key) (warnings : List String) (consistency : ConsistencyReport) (now : Timestamp),
      let overall (files : List (FileOutcome Rat)) : Rat := (aggregate key files warnings consistency now).overallConfidence
      (∀ files : List (FileOutcome Rat),
        (aggregate key (files.map (FileOutcome.map Guarded.sound)) warnings consistency now).overallConfidence =
          Guarded.sound (overall files) ∧
        |overall files - meanChanged files| ≤ 1 / 200 ∧
        ((∀ o ∈ files, o.Changed → 0 ≤ o.confidence ∧ o.confidence ≤ 9 / 10) →
          0 ≤ overall files ∧ overall files ≤ 9 / 10)) ∧
      ∀ before (o : FileOutcome Rat) after, o.action = .skip ∨ o.appliedChanges = [] →
        overall (before ++ o :: after) = overall (before ++ after) := by
  refine ⟨fun applied recommendations skipped => ?_, fun o h => h.confidence_mem,
    fun key warnings consistency now => ⟨fun files => ?_, fun before o after h => ?_⟩⟩
  · exact ⟨fileConfidence_sound applied recommendations skipped, fileConfidence_eq_zero_iff applied recommendations skipped,
      fileConfidence_mem applied recommendations skipped, fun _ h => fileConfidence_anti applied recommendations h⟩
  · refine ⟨overallConfidence_sound files, ?_, overallConfidence_mem⟩
    show |overallConfidence files - _| ≤ _
    rw [overallConfidence_eq]
    exact Score.abs_roundHundredths_sub_le _
  · refine overallConfidence_insert before (fun hchanged => ?_) after
    rcases h with hskip | hnone
    · exact TransformAction.noConfusion (hskip.symm.trans hchanged.1)
    · exact hchanged.2 hnone

/-- A file with two changes, one with a change and a recommendation that is skipped, and a skipped file. -/
theorem confidence_bounds_three :
    let recommendation (level : Level) : Recommendation := ⟨"src/Vault.sol", none, .security, "", "", level⟩
    let recommendations := [recommendation .high, recommendation .low]
    let answer (changes : List AppliedChange) : TransformResponse := ⟨.apply, changes, some "contract Vault \x7b\x7d", []⟩
    let files : List (FileOutcome Rat) := [
      fileOutcome "src/Vault.sol" recommendations (answer [⟨"", some 0, none⟩, ⟨"", some 1, none⟩]),
      fileOutcome "src/Proxy.sol" recommendations (answer [⟨"", some 0, none⟩]),
      skippedOutcome "src/Gone.sol" recommendations "no source" []]
    overallConfidence files = (55 / 100 : Rat) ∧ overallConfidence files ≤ (9 / 10 : Rat) := by
  intro recommendation recommendations answer files
  have harises : ∀ o ∈ files, o.Arises := by
    simp only [files, List.forall_mem_cons, List.not_mem_nil, false_imp_iff, implies_true, and_true]
    exact ⟨.answered .., .answered .., .skipped ..⟩
  obtain ⟨-, hfiles, hall⟩ := confidence_bounds
  have h := (hall ⟨"acme", "vaults"⟩ [] ⟨false, true, true, [], 0, 0⟩ ⟨0, 0⟩).1 files
  exact ⟨by decide +kernel, (h.2.2 fun o ho _ => hfiles o (harises o ho)).2⟩

/-- The confidence of an outcome is taken as it is: with one that no file can have, that in all files is above nine
tenths. -/
theorem overallConfidence_of_surer :
    let o : FileOutcome Rat := ⟨"src/Vault.sol", .apply, [⟨"gate removed", none, none⟩], 1, 0, 905 / 1000, [], none,
      some "contract Vault \x7b\x7d"⟩
    let report := aggregate ⟨"acme", "vaults"⟩ [o] [] ⟨false, true, true, [], 0, 0⟩ ⟨0, 0⟩
    report.overallConfidence = (91 / 100 : Rat) ∧ ¬report.overallConfidence ≤ (9 / 10 : Rat) := by
  intro o report
  have h : report.overallConfidence = (91 / 100 : Rat) := by decide +kernel
  rw [h]
  norm_num

end ContractMigration
