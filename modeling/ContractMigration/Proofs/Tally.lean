import ContractMigration.Proofs.Repository.ReadBack
import Mathlib.Data.List.Count

/-! What a tally of keys says: how often each key occurs, and how many keys there are in all. Ranks tell keys apart, so a
key that is met again is found where it is listed. -/

namespace ContractMigration.Tally

variable {α : Type} [DecidableEq α] {rank : α → Nat} {t : Tally α}

/-! ### One key more -/

theorem keys_add {a : α} {x : α × Nat} (h : x ∈ add rank a t) : x.1 = a ∨ ∃ y ∈ t, y.1 = x.1 := by
  induction t with
  | nil => exact .inl (congrArg Prod.fst (List.mem_singleton.mp h))
  | cons y t ih =>
    obtain ⟨b, n⟩ := y
    rw [add] at h
    split_ifs at h with hab hlt
    · rcases List.mem_cons.mp h with rfl | h
      · exact .inl hab.symm
      · exact .inr ⟨x, List.mem_cons_of_mem _ h, rfl⟩
    · rcases List.mem_cons.mp h with rfl | h
      · exact .inl rfl
      · exact .inr ⟨x, h, rfl⟩
    · rcases List.mem_cons.mp h with rfl | h
      · exact .inr ⟨(b, n), List.mem_cons_self, rfl⟩
      · exact (ih h).imp_right fun ⟨y, hy, hkey⟩ => ⟨y, List.mem_cons_of_mem _ hy, hkey⟩

theorem ordered_add (hrank : Function.Injective rank) (a : α) (h : t.Ordered rank) : (add rank a t).Ordered rank := by
  induction t with
  | nil => exact List.pairwise_singleton _ _
  | cons x t ih =>
    obtain ⟨b, n⟩ := x
    obtain ⟨hb, ht⟩ := List.pairwise_cons.mp h
    rw [add]
    split_ifs with hab hlt
    · exact List.pairwise_cons.mpr ⟨hb, ht⟩
    · exact List.pairwise_cons.mpr ⟨List.forall_mem_cons.mpr ⟨hlt, fun y hy => hlt.trans (hb y hy)⟩, h⟩
    · have hgt : rank b < rank a := by
        have := hrank.ne hab
        omega
      refine List.pairwise_cons.mpr ⟨fun y hy => ?_, ih ht⟩
      rcases keys_add hy with hkey | ⟨z, hz, hkey⟩
      · exact hkey ▸ hgt
      · exact hkey ▸ hb z hz

theorem lookup_cons (a b : α) (n : Nat) (t : Tally α) : List.lookup a ((b, n) :: t) = if a = b then some n else t.lookup a := by
  by_cases h : a = b
  · rw [h, List.lookup_cons_self, if_pos rfl]
  · rw [List.lookup_cons, beq_eq_false_iff_ne.mpr h, if_neg h]

theorem lookup_eq_none {a : α} (h : ∀ x ∈ t, rank a < rank x.1) : t.lookup a = none :=
  List.lookup_eq_none_iff.mpr fun x hx => bne_iff_ne.mpr fun he => absurd (h x hx) (he ▸ Nat.lt_irrefl _)

/-- The count of the key goes up by one, and that of no other key changes. -/
theorem lookup_add (a b : α) (h : t.Ordered rank) :
    (add rank a t).lookup b = if b = a then some ((t.lookup a).getD 0 + 1) else t.lookup b := by
  induction t with
  | nil => rw [add, lookup_cons]; rfl
  | cons x t ih =>
    obtain ⟨c, n⟩ := x
    obtain ⟨hc, ht⟩ := List.pairwise_cons.mp h
    rw [add]
    by_cases hac : a = c
    · rw [if_pos hac]
      simp only [lookup_cons, hac, if_true, Option.getD_some]
      split_ifs <;> rfl
    · rw [if_neg hac]
      by_cases hlt : rank a < rank c
      · have hnone : List.lookup a ((c, n) :: t) = none :=
          lookup_eq_none (List.forall_mem_cons.mpr ⟨hlt, fun x hx => hlt.trans (hc x hx)⟩)
        rw [if_pos hlt, lookup_cons, hnone]
        rfl
      · rw [if_neg hlt, lookup_cons, ih ht, lookup_cons b, lookup_cons a, if_neg hac]
        split_ifs with hbc hba <;> simp_all

theorem total_add (a : α) (t : Tally α) : (add rank a t).total = t.total + 1 := by
  induction t with
  | nil => rfl
  | cons x t ih =>
    rw [add]
    split_ifs with hax hlt
    · simp [total, ContractMigration.total]
      omega
    · simp [total, ContractMigration.total]
      omega
    · simp only [total, ContractMigration.total] at ih ⊢
      simp [ih]
      omega

/-! ### All keys -/

/-- Keys are counted one after the other. -/
theorem ofList_concat (keys : List α) (a : α) : ofList rank (keys ++ [a]) = add rank a (ofList rank keys) := by
  rw [ofList, List.foldl_concat]
  rfl

theorem ordered_ofList (hrank : Function.Injective rank) (keys : List α) : (ofList rank keys).Ordered rank := by
  induction keys using List.reverseRecOn with
  | nil => exact List.Pairwise.nil
  | append_singleton keys a ih =>
    rw [ofList_concat]
    exact ordered_add hrank a ih

/-- A key is listed with the number of its occurrences, if there are any. -/
theorem lookup_ofList (hrank : Function.Injective rank) (keys : List α) (a : α) :
    (ofList rank keys).lookup a = if a ∈ keys then some (keys.count a) else none := by
  induction keys using List.reverseRecOn generalizing a with
  | nil => rfl
  | append_singleton keys b ih =>
    rw [ofList_concat, lookup_add b a (ordered_ofList hrank keys), ih, ih]
    by_cases hab : a = b
    · subst hab
      by_cases ha : a ∈ keys
      · simp [ha]
      · simp [ha, List.count_eq_zero_of_not_mem ha]
    · simp [hab, Ne.symm hab]

theorem lookup_ofList_eq_some_iff (hrank : Function.Injective rank) {keys : List α} {a : α} {n : Nat} :
    (ofList rank keys).lookup a = some n ↔ 0 < n ∧ n = keys.count a := by
  rw [lookup_ofList hrank]
  split_ifs with h
  · have hpos := List.count_pos_iff.mpr h
    rw [Option.some.injEq]
    omega
  · have hzero := List.count_eq_zero_of_not_mem h
    simp only [false_iff]
    omega

theorem total_ofList (keys : List α) : (ofList rank keys).total = keys.length := by
  induction keys using List.reverseRecOn with
  | nil => rfl
  | append_singleton keys a ih => rw [ofList_concat, total_add, ih, List.length_append, List.length_singleton]

end ContractMigration.Tally
