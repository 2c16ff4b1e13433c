import ContractMigration.Plan.Make
import ContractMigration.Proofs.Graph.FirstSeen
import Mathlib.Algebra.GroupWithZero.Nat
import Mathlib.Data.String.Basic

/-! Recommendations by file. Every recommendation is for a known file, for a file that is not known, or for none, and never
for two of these. The groups are the known files that recommendations name, in strictly increasing order, each with its
recommendations in the order of the plan; so the sizes of the groups and the two counts of what is left add up to the
number of all recommendations. -/

namespace ContractMigration

/-! ### Counting by key -/

section

variable {α β : Type} [DecidableEq β]

end

/-! ### Recommendations -/

/-- The recommendations for one file, in order. -/
def recommendationsFor (recommendations : List Recommendation) (path : String) : List Recommendation :=
  recommendations.filter fun r => r.filePath == path

namespace Recommendation

/-- The recommendation is for one of these files. -/
def Targets (known : List String) (r : Recommendation) : Prop := r.filePath ≠ "" ∧ r.filePath ∈ known

/-- The recommendation is for a file that is not among these. -/
def Strays (known : List String) (r : Recommendation) : Prop := r.filePath ≠ "" ∧ r.filePath ∉ known

instance (known : List String) (r : Recommendation) : Decidable (r.Targets known) := inferInstanceAs (Decidable (_ ∧ _))

instance (known : List String) (r : Recommendation) : Decidable (r.Strays known) := inferInstanceAs (Decidable (_ ∧ _))

end Recommendation

/-- The files among `known` that recommendations name, in order. -/
def targets (known : List String) (recommendations : List Recommendation) : List String :=
  ((firstSeen (recommendations.map Recommendation.filePath)).filter fun p => p != "" && known.contains p).mergeSort
    fun a b => a ≤ b

section

variable {known warnings : List String} {recommendations : List Recommendation} {path : String}

theorem mem_targets :
    path ∈ targets known recommendations ↔ path ≠ "" ∧ path ∈ known ∧ ∃ r ∈ recommendations, r.filePath = path := by
  simp only [targets, List.mem_mergeSort, List.mem_filter, mem_firstSeen, List.mem_map, Bool.and_eq_true, bne_iff_ne,
    List.contains_iff_mem]
  rw [and_comm, and_assoc]

theorem nodup_targets (known : List String) (recommendations : List Recommendation) :
    (targets known recommendations).Nodup :=
  (List.mergeSort_perm _ _).nodup_iff.mpr ((nodup_firstSeen _).filter _)

/-- The files come in strictly increasing order. -/
theorem pairwise_targets (known : List String) (recommendations : List Recommendation) :
    (targets known recommendations).Pairwise (· < ·) := by
  have hsorted : (targets known recommendations).Pairwise fun a b => decide (a ≤ b) = true :=
    List.pairwise_mergeSort (fun a b c hab hbc => by simp only [decide_eq_true_eq] at *; exact le_trans hab hbc)
      (fun a b => by simpa using le_total a b) _
  have hne : (targets known recommendations).Pairwise (· ≠ ·) := nodup_targets known recommendations
  exact hsorted.imp₂ (fun a b hle hne => lt_of_le_of_ne (of_decide_eq_true hle) hne) hne

theorem recommendationsFor_concat (r : Recommendation) (path : String) :
    recommendationsFor (recommendations ++ [r]) path =
      if r.filePath = path then recommendationsFor recommendations path ++ [r]
      else recommendationsFor recommendations path := by
  rw [recommendationsFor, List.filter_append]
  by_cases h : r.filePath = path <;> simp [h, recommendationsFor]

theorem recommendationsFor_eq_nil (h : ¬∃ r ∈ recommendations, r.filePath = path) :
    recommendationsFor recommendations path = [] := by
  rw [recommendationsFor, List.filter_eq_nil_iff]
  exact fun r hr hpath => h ⟨r, hr, beq_iff_eq.mp hpath⟩

namespace Grouping

/-! ### One recommendation more -/

section Enter

variable {r : Recommendation} {groups : List (String × List Recommendation)}

theorem mem_files_enter : path ∈ (enter r groups).map Prod.fst ↔ path = r.filePath ∨ path ∈ groups.map Prod.fst := by
  induction groups with
  | nil => simp [enter]
  | cons g rest ih =>
    obtain ⟨p, rs⟩ := g
    rw [enter]
    split_ifs with heq hlt
    · simp [heq]
    · simp
    · rw [List.map_cons, List.mem_cons, ih, List.map_cons, List.mem_cons]
      tauto

theorem pairwise_enter (h : (groups.map Prod.fst).Pairwise (· < ·)) :
    ((enter r groups).map Prod.fst).Pairwise (· < ·) := by
  induction groups with
  | nil => exact List.pairwise_singleton _ _
  | cons g rest ih =>
    obtain ⟨p, rs⟩ := g
    obtain ⟨hp, hrest⟩ := List.pairwise_cons.mp h
    rw [enter]
    split_ifs with heq hlt
    · exact h
    · exact List.pairwise_cons.mpr ⟨List.forall_mem_cons.mpr ⟨hlt, fun q hq => hlt.trans (hp q hq)⟩, h⟩
    · refine List.pairwise_cons.mpr ⟨fun q hq => ?_, ih hrest⟩
      rcases mem_files_enter.mp hq with rfl | hq
      · exact lt_of_le_of_ne (not_lt.mp hlt) (Ne.symm heq)
      · exact hp q hq

/-- The groups of other files are as before, and the recommendation is the last in that of its own file. -/
theorem mem_enter (h : (groups.map Prod.fst).Pairwise (· < ·)) {g : String × List Recommendation}
    (hg : g ∈ enter r groups) :
    g ∈ groups ∧ g.1 ≠ r.filePath ∨ ∃ rs, g = (r.filePath, rs ++ [r]) ∧
      ((r.filePath, rs) ∈ groups ∨ rs = [] ∧ r.filePath ∉ groups.map Prod.fst) := by
  induction groups with
  | nil => exact .inr ⟨[], List.mem_singleton.mp hg, .inr ⟨rfl, List.not_mem_nil⟩⟩
  | cons x rest ih =>
    obtain ⟨p, rs⟩ := x
    obtain ⟨hp, hrest⟩ := List.pairwise_cons.mp h
    rw [enter] at hg
    split_ifs at hg with heq hlt
    · rcases List.mem_cons.mp hg with rfl | hg
      · exact .inr ⟨rs, by rw [heq], .inl (by rw [heq]; exact List.mem_cons_self)⟩
      · exact .inl ⟨List.mem_cons_of_mem _ hg, heq ▸ (hp g.1 (List.mem_map_of_mem hg)).ne'⟩
    · have hfirst : ∀ q ∈ ((p, rs) :: rest).map Prod.fst, r.filePath < q :=
        List.forall_mem_cons.mpr ⟨hlt, fun q hq => hlt.trans (hp q hq)⟩
      rcases List.mem_cons.mp hg with rfl | hg
      · exact .inr ⟨[], rfl, .inr ⟨rfl, fun hmem => lt_irrefl _ (hfirst _ hmem)⟩⟩
      · exact .inl ⟨hg, (hfirst g.1 (List.mem_map_of_mem hg)).ne'⟩
    · rcases List.mem_cons.mp hg with rfl | hg
      · exact .inl ⟨List.mem_cons_self, Ne.symm heq⟩
      · refine (ih hrest hg).imp (And.imp_left (List.mem_cons_of_mem _)) (Exists.imp fun old hold => ⟨hold.1, ?_⟩)
        refine hold.2.imp (List.mem_cons_of_mem _) (And.imp_right fun hnew hmem => ?_)
        rcases List.mem_cons.mp hmem with hsame | hmem
        · exact heq hsame
        · exact hnew hmem

end Enter

/-! ### All recommendations -/

/-- What the walk through recommendations has come to: the groups are those of the known files that were named, each with its
recommendations so far, the rest is in the warnings and in the count. -/
structure Reached (known warnings : List String) (recommendations : List Recommendation) (g : Grouping) : Prop where
  increasing : (g.groups.map Prod.fst).Pairwise (· < ·)
  files : ∀ path, path ∈ g.groups.map Prod.fst ↔
    path ≠ "" ∧ path ∈ known ∧ ∃ r ∈ recommendations, r.filePath = path
  group : ∀ x ∈ g.groups, x.2 = recommendationsFor recommendations x.1
  warnings : g.warnings = warnings ++ (recommendations.filter fun r => decide (r.Strays known)).map fun r =>
    "recommendation for unknown file " ++ r.filePath ++ " ignored"
  untargeted : g.untargeted = recommendations.countP fun r => r.filePath == ""

theorem reached_nil : Reached known warnings [] ⟨[], warnings, 0⟩ where
  increasing := List.Pairwise.nil
  files := by simp
  group := by simp
  warnings := by simp
  untargeted := rfl

/-- A recommendation that does not target a known file leaves the groups as they are. -/
theorem Reached.groups_concat {g : Grouping} (h : Reached known warnings recommendations g) {r : Recommendation}
    (hr : ¬r.Targets known) :
    (∀ path, path ∈ g.groups.map Prod.fst ↔
        path ≠ "" ∧ path ∈ known ∧ ∃ r' ∈ recommendations ++ [r], r'.filePath = path) ∧
      ∀ x ∈ g.groups, x.2 = recommendationsFor (recommendations ++ [r]) x.1 := by
  constructor
  · intro path
    rw [h.files path]
    refine and_congr_right fun hne => and_congr_right fun hknown => ?_
    simp only [List.mem_append, List.mem_singleton, or_and_right, exists_or, exists_eq_left]
    refine ⟨.inl, fun hpath => hpath.resolve_right ?_⟩
    rintro rfl
    exact hr ⟨hne, hknown⟩
  · intro x hx
    obtain ⟨hne, hknown, -⟩ := (h.files x.1).mp (List.mem_map_of_mem hx)
    rw [h.group x hx, recommendationsFor_concat, if_neg]
    rintro hpath
    exact hr ⟨hpath ▸ hne, hpath ▸ hknown⟩

theorem Reached.add {g : Grouping} (h : Reached known warnings recommendations g) (r : Recommendation) :
    Reached known warnings (recommendations ++ [r]) (g.add known r) := by
  rw [Grouping.add]
  split_ifs with hnone hknown
  · -- for no file
    obtain ⟨hfiles, hgroup⟩ := h.groups_concat (r := r) fun htargets => htargets.1 hnone
    exact ⟨h.increasing, hfiles, hgroup, by simp [h.warnings, Recommendation.Strays, hnone],
      by simp [h.untargeted, hnone]⟩
  · -- for a known file
    have hmem : r.filePath ∈ known := by simpa using hknown
    refine ⟨pairwise_enter h.increasing, fun path => ?files, fun x hx => ?group,
      by simp [h.warnings, Recommendation.Strays, hmem], by simp [h.untargeted, hnone]⟩
    case files =>
      rw [mem_files_enter, h.files path]
      simp only [List.mem_append, List.mem_singleton, or_and_right, exists_or, exists_eq_left]
      constructor
      · rintro (rfl | ⟨hne, hk, hr⟩)
        · exact ⟨hnone, hmem, .inr rfl⟩
        · exact ⟨hne, hk, .inl hr⟩
      · rintro ⟨hne, hk, hr | rfl⟩
        · exact .inr ⟨hne, hk, hr⟩
        · exact .inl rfl
    case group =>
      rcases mem_enter h.increasing hx with ⟨hold, hne⟩ | ⟨rs, rfl, hold | ⟨rfl, hnew⟩⟩
      · rw [recommendationsFor_concat, if_neg (Ne.symm hne)]
        exact h.group x hold
      · rw [recommendationsFor_concat, if_pos rfl, ← h.group _ hold]
      · rw [h.files] at hnew
        have hfirst : ¬∃ r' ∈ recommendations, r'.filePath = r.filePath := fun hr => hnew ⟨hnone, hmem, hr⟩
        rw [recommendationsFor_concat, if_pos rfl, recommendationsFor_eq_nil hfirst]
  · -- for an unknown file
    have hmem : r.filePath ∉ known := by simpa using hknown
    obtain ⟨hfiles, hgroup⟩ := h.groups_concat (r := r) fun htargets => hmem htargets.2
    exact ⟨h.increasing, hfiles, hgroup, by simp [h.warnings, Recommendation.Strays, hnone, hmem],
      by simp [h.untargeted, hnone]⟩

theorem reached_of (known warnings : List String) (recommendations : List Recommendation) :
    Reached known warnings recommendations (.of known warnings recommendations) := by
  induction recommendations using List.reverseRecOn with
  | nil => exact reached_nil
  | append_singleton rest r ih =>
    rw [Grouping.of, List.foldl_concat]
    exact ih.add r

theorem files_of (known warnings : List String) (recommendations : List Recommendation) :
    (Grouping.of known warnings recommendations).groups.map Prod.fst = targets known recommendations := by
  have h := reached_of known warnings recommendations
  have hnodup : ((Grouping.of known warnings recommendations).groups.map Prod.fst).Nodup := h.increasing.imp ne_of_lt
  have hperm := (List.perm_ext_iff_of_nodup hnodup (nodup_targets known recommendations)).mpr fun path =>
    (h.files path).trans mem_targets.symm
  exact List.Perm.eq_of_pairwise (fun a b _ _ hab hba => absurd hba hab.asymm) h.increasing
    (pairwise_targets known recommendations) hperm

/-- No file is in two groups. -/
theorem nodup_files (known warnings : List String) (recommendations : List Recommendation) :
    ((Grouping.of known warnings recommendations).groups.map Prod.fst).Nodup := by
  rw [files_of]
  exact nodup_targets known recommendations

end Grouping

end

end ContractMigration
