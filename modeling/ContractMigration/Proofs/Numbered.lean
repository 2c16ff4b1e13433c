import Mathlib.Data.List.Basic

/-! What is listed for the elements of a list, where the number of an element counts as well. -/

namespace ContractMigration

variable {α β : Type*}

/-- What is listed for the elements of a list, each with its number. -/
def numbered (l : List α) (f : Nat → α → List β) : List β := l.zipIdx.flatMap fun x => f x.2 x.1

theorem mem_numbered {l : List α} {f : Nat → α → List β} {b : β} :
    b ∈ numbered l f ↔ ∃ i a, l[i]? = some a ∧ b ∈ f i a := by
  simp only [numbered, List.mem_flatMap, Prod.exists, List.mem_zipIdx_iff_getElem?]
  exact exists_comm

theorem map_numbered_of_mem {γ : Type*} {l : List α} {f : Nat → α → List β} {g : β → γ} {h : α → List γ}
    (hf : ∀ i, ∀ a ∈ l, (f i a).map g = h a) : (numbered l f).map g = l.flatMap h := by
  have hzip : ∀ x ∈ l.zipIdx, (f x.2 x.1).map g = h x.1 := fun x hx => hf x.2 x.1 (List.fst_mem_of_mem_zipIdx hx)
  rw [numbered, List.map_flatMap, List.flatMap_congr hzip, ← List.flatMap_map Prod.fst h, List.zipIdx_map_fst]

theorem map_numbered {γ : Type*} (l : List α) {f : Nat → α → List β} {g : β → γ} {h : α → List γ}
    (hf : ∀ i a, (f i a).map g = h a) : (numbered l f).map g = l.flatMap h :=
  map_numbered_of_mem fun i a _ => hf i a

theorem pairwise_numbered_of_mem {l : List α} {f : Nat → α → List β} {R : β → β → Prop}
    (hf : ∀ i, ∀ a ∈ l, (f i a).Pairwise R)
    (hlt : ∀ i j a b, i < j → ∀ x ∈ f i a, ∀ y ∈ f j b, R x y) : (numbered l f).Pairwise R := by
  rw [numbered, List.pairwise_flatMap]
  refine ⟨fun x hx => hf x.2 x.1 (List.fst_mem_of_mem_zipIdx hx), ?_⟩
  have hindex : l.zipIdx.Pairwise fun x y => x.2 < y.2 := by
    rw [← List.pairwise_map (R := (· < ·)), List.zipIdx_map_snd]
    exact List.pairwise_lt_range'
  exact hindex.imp fun h => hlt _ _ _ _ h

theorem pairwise_numbered (l : List α) {f : Nat → α → List β} {R : β → β → Prop} (hf : ∀ i a, (f i a).Pairwise R)
    (hlt : ∀ i j a b, i < j → ∀ x ∈ f i a, ∀ y ∈ f j b, R x y) : (numbered l f).Pairwise R :=
  pairwise_numbered_of_mem (fun i a _ => hf i a) hlt

end ContractMigration
