import ContractMigration.Graph.Basic
import Mathlib.Data.List.Nodup
import Mathlib.Data.List.Induction

/-! Lists in the order of first appearance. `firstSeen` keeps the elements of a list, drops the repetitions, and what is
left stands in the order of the first occurrences. What comes behind another list adds only what is new there. -/

namespace ContractMigration

variable {α : Type} [DecidableEq α] {x y : α} {xs : List α}

theorem mem_insertNew : y ∈ insertNew xs x ↔ y ∈ xs ∨ y = x := by
  unfold insertNew
  split <;> simp_all

theorem mem_foldl_insertNew {new : List α} : x ∈ new.foldl insertNew xs ↔ x ∈ xs ∨ x ∈ new := by
  induction new generalizing xs with
  | nil => simp
  | cons y new ih => rw [List.foldl_cons, ih, mem_insertNew, List.mem_cons, or_assoc]

theorem nodup_insertNew (h : xs.Nodup) (x : α) : (insertNew xs x).Nodup := by
  rw [insertNew]
  split_ifs with hx
  · exact h
  · exact List.nodup_append.mpr ⟨h, List.nodup_singleton x, fun a ha b hb => by
      rw [List.mem_singleton.mp hb]
      exact fun hab => hx (hab ▸ ha)⟩

theorem firstSeen_concat (xs : List α) (x : α) : firstSeen (xs ++ [x]) = insertNew (firstSeen xs) x := by
  simp [firstSeen]

@[simp] theorem mem_firstSeen : x ∈ firstSeen xs ↔ x ∈ xs := by
  induction xs using List.reverseRecOn with
  | nil => rfl
  | append_singleton xs y ih => simp [firstSeen_concat, mem_insertNew, ih]

theorem nodup_firstSeen (xs : List α) : (firstSeen xs).Nodup := by
  induction xs using List.reverseRecOn with
  | nil => exact List.nodup_nil
  | append_singleton xs y ih =>
    rw [firstSeen_concat]
    exact nodup_insertNew ih y

/-- Lists with the same elements are the same without repetitions, up to order. -/
theorem perm_firstSeen {ys : List α} (h : ∀ x, x ∈ xs ↔ x ∈ ys) : (firstSeen xs).Perm (firstSeen ys) := by
  refine (List.perm_ext_iff_of_nodup (nodup_firstSeen xs) (nodup_firstSeen ys)).mpr fun x => ?_
  rw [mem_firstSeen, mem_firstSeen, h x]

theorem firstSeen_of_nodup (h : xs.Nodup) : firstSeen xs = xs := by
  induction xs using List.reverseRecOn with
  | nil => rfl
  | append_singleton xs x ih =>
    obtain ⟨hxs, -, hx⟩ := List.nodup_append.mp h
    rw [firstSeen_concat, ih hxs, insertNew, if_neg fun hmem => hx x hmem x (List.mem_singleton_self x) rfl]

/-- What is listed earlier occurred earlier. -/
theorem pairwise_firstSeen (xs : List α) : (firstSeen xs).Pairwise fun a b => xs.idxOf a < xs.idxOf b := by
  induction xs using List.reverseRecOn with
  | nil => exact List.Pairwise.nil
  | append_singleton xs y ih =>
    have hold : ∀ a ∈ firstSeen xs, (xs ++ [y]).idxOf a = xs.idxOf a := fun a ha =>
      List.idxOf_append_of_mem (mem_firstSeen.mp ha)
    have hkept : (firstSeen xs).Pairwise fun a b => (xs ++ [y]).idxOf a < (xs ++ [y]).idxOf b := by
      refine ih.imp_of_mem fun ha hb hab => ?_
      rw [hold _ ha, hold _ hb]
      exact hab
    rw [firstSeen_concat, insertNew]
    split_ifs with hy
    · exact hkept
    · refine List.pairwise_append.mpr ⟨hkept, List.pairwise_singleton _ _, fun a ha b hb => ?_⟩
      obtain rfl := List.mem_singleton.mp hb
      -- a new element occurs behind all others
      have hlast : (xs ++ [b]).idxOf b = xs.length := by
        rw [List.idxOf_append_of_notMem (fun h => hy (mem_firstSeen.mpr h))]
        simp
      rw [hold a ha, hlast]
      exact List.idxOf_lt_length_of_mem (mem_firstSeen.mp ha)

/-- `ys` lists the elements of `xs` once each, in the order in which they first occur there. -/
structure ListsOnce (xs ys : List α) : Prop where
  nodup : ys.Nodup
  mem : ∀ x, x ∈ ys ↔ x ∈ xs
  order : ys.Pairwise fun a b => xs.idxOf a < xs.idxOf b

theorem listsOnce_firstSeen (xs : List α) : ListsOnce xs (firstSeen xs) :=
  ⟨nodup_firstSeen xs, fun _ => mem_firstSeen, pairwise_firstSeen xs⟩

theorem insertNew_append_of_notMem (hy : y ∉ xs) (ys : List α) : insertNew (xs ++ ys) y = xs ++ insertNew ys y := by
  by_cases h : y ∈ ys
  · rw [insertNew, insertNew, if_pos (List.mem_append_right xs h), if_pos h]
  · have happend : y ∉ xs ++ ys := fun hmem => (List.mem_append.mp hmem).elim hy h
    rw [insertNew, insertNew, if_neg happend, if_neg h, List.append_assoc]

theorem firstSeen_append (xs ys : List α) : firstSeen (xs ++ ys) = firstSeen xs ++ firstSeen (ys.filter (· ∉ xs)) := by
  induction ys using List.reverseRecOn with
  | nil => simp [firstSeen]
  | append_singleton ys y ih =>
    rw [← List.append_assoc, firstSeen_concat, ih, List.filter_append]
    by_cases hy : y ∈ xs
    · simp [hy, insertNew]
    · have hnew : y ∉ firstSeen xs := fun h => hy (mem_firstSeen.mp h)
      rw [insertNew_append_of_notMem hnew]
      simp [hy, firstSeen_concat]

end ContractMigration
