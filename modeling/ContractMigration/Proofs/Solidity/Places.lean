import ContractMigration.Solidity.Extract
import ContractMigration.Proofs.Solidity.Names
import Mathlib.Data.List.Forall2
import Mathlib.Data.List.Infix

/-! Where the phrases of a source stand in it. What is collected from phrases is in the order of the source if there are
places for it of which each one ends before the next one begins. -/

namespace ContractMigration.Solidity

variable {p : Phrase} {t u : Tree} {ts rest trees : List Tree} {n : ℕ}

/-- One of these trees, or a part of one, begins after so many characters. The layout in front of it belongs to it. -/
inductive Stands : List Tree → ℕ → Tree → Prop
  | here (t : Tree) (rest : List Tree) : Stands (t :: rest) 0 t
  | inside {p : Phrase} {ts : List Tree} {n : ℕ} {t : Tree} (rest : List Tree) (h : Stands ts n t) :
      Stands (.node p ts :: rest) n t
  | behind (u : Tree) {rest : List Tree} {n : ℕ} {t : Tree} (h : Stands rest n t) :
      Stands (u :: rest) ((spelled u.tokens).length + n) t

namespace Stands

theorem of_append (h : Stands (ts ++ rest) n t) :
    Stands ts n t ∨ ∃ m, n = (spelled (Tree.tokensOf ts)).length + m ∧ Stands rest m t := by
  induction ts generalizing n with
  | nil => exact .inr ⟨n, (Nat.zero_add n).symm, h⟩
  | cons u ts ih =>
    cases h with
    | here => exact .inl (.here _ ts)
    | inside _ h => exact .inl (.inside ts h)
    | behind _ h =>
      rcases ih h with h | ⟨m, rfl, hrest⟩
      · exact .inl (.behind u h)
      · refine .inr ⟨m, ?_, hrest⟩
        rw [Tree.tokensOf, spelled_append, List.length_append, Nat.add_assoc]

/-- A walk that goes on with the parts of a tree finds each tree where it stands. -/
theorem opened (h : Stands (ts ++ rest) n t) : Stands (.node p ts :: rest) n t := by
  rcases h.of_append with h | ⟨m, rfl, hrest⟩
  · exact .inside rest h
  · exact .behind (.node p ts) hrest

/-- A part of a tree stands where the tree does, and so much further on. -/
theorem trans {d : Tree} {m : ℕ} (hd : Stands trees n d) (ht : Stands [d] m t) : Stands trees (n + m) t := by
  induction hd with
  | here d rest =>
    rw [Nat.zero_add]
    cases ht with
    | here => exact .here _ rest
    | inside _ h => exact .inside rest h
    | behind _ h => exact nomatch h
  | inside rest _ ih => exact .inside rest (ih ht)
  | behind u _ ih =>
    rw [Nat.add_assoc]
    exact .behind u (ih ht)

/-- The trees spell what stands at their places. -/
theorem isPrefix (h : Stands trees n t) : spelled t.tokens <+: (spelled (Tree.tokensOf trees)).drop n := by
  induction h with
  | here t rest =>
    rw [List.drop_zero, Tree.tokensOf, spelled_append]
    exact List.prefix_append _ _
  | @inside p ts n t rest h ih =>
    rw [Tree.tokensOf, Tree.tokens, spelled_append]
    refine ih.trans ?_
    rw [List.drop_append]
    exact List.prefix_append _ _
  | behind u h ih =>
    rw [Tree.tokensOf, spelled_append, List.drop_length_add_append]
    exact ih

end Stands

/-- What a tree spells is its text with the layout in front of it. -/
theorem text_isSuffix (t : Tree) : t.text.toList <:+ spelled t.tokens := by
  rw [Tree.text, String.toList_ofList]
  cases t.tokens with
  | nil => exact List.suffix_refl _
  | cons v vs =>
    rw [spelled_cons]
    exact List.suffix_append _ _

/-- A source spells its phrases, and behind them there is nothing but layout. -/
theorem spelled_isPrefix_of_parse? {source : String} (h : parse? source = some trees) :
    spelled (Tree.tokensOf trees) <+: source.toList := by
  obtain ⟨c, hphrases, -⟩ := Grammar.parse?_eq_some_iff.mp h
  have hspelled := (Rule.reads_of_parse hphrases).spelled
  rw [Cursor.lead_append_text] at hspelled
  exact ⟨_, hspelled.symm⟩

/-- Each phrase of a source stands in the source. -/
theorem Stands.isPrefix_drop {source : String} (h : parse? source = some trees) (ht : Stands trees n t) :
    spelled t.tokens <+: source.toList.drop n :=
  ht.isPrefix.trans ((spelled_isPrefix_of_parse? h).drop n)

/-! ### In the order of the source -/

/-- Each of these is that of a tree, and the trees follow one another in the source without overlap. -/
def Listed {α : Type} (R : Tree → α → Prop) (trees : List Tree) (as : List α) : Prop :=
  ∃ places : List (ℕ × Tree), List.Forall₂ (fun x a => Stands trees x.1 x.2 ∧ R x.2 a) places as ∧
    places.Pairwise fun x y => x.1 + (spelled x.2.tokens).length ≤ y.1

namespace Listed

variable {α : Type} {R S : Tree → α → Prop} {as : List α} {a : α}

theorem imp (h : Listed R trees as) (hRS : ∀ t a, R t a → S t a) : Listed S trees as := by
  obtain ⟨places, hplaces, horder⟩ := h
  exact ⟨places, hplaces.imp fun x a h => ⟨h.1, hRS x.2 a h.2⟩, horder⟩

theorem exists_of_mem (h : Listed R trees as) (ha : a ∈ as) : ∃ t, R t a := by
  obtain ⟨places, hplaces, -⟩ := h
  induction hplaces with
  | nil => exact nomatch ha
  | cons hx _ ih =>
    rcases List.mem_cons.mp ha with rfl | ha
    · exact ⟨_, hx.2⟩
    · exact ih ha

theorem nil (R : Tree → α → Prop) (trees : List Tree) : Listed R trees [] := ⟨[], .nil, .nil⟩

/-- What comes behind a tree begins where the tree ends, or later. -/
theorem places_behind (t : Tree) (h : Listed R rest as) : ∃ places : List (ℕ × Tree),
    List.Forall₂ (fun x a => Stands (t :: rest) x.1 x.2 ∧ R x.2 a) places as ∧
    (places.Pairwise fun x y => x.1 + (spelled x.2.tokens).length ≤ y.1) ∧
    ∀ x ∈ places, (spelled t.tokens).length ≤ x.1 := by
  obtain ⟨places, hplaces, horder⟩ := h
  refine ⟨places.map fun x => ((spelled t.tokens).length + x.1, x.2), ?_, ?_, ?_⟩
  · rw [List.forall₂_map_left_iff]
    exact hplaces.imp fun x a h => ⟨.behind t h.1, h.2⟩
  · rw [List.pairwise_map]
    refine horder.imp fun {x y} hxy => ?_
    rw [Nat.add_assoc]
    exact Nat.add_le_add_left hxy _
  · simp only [List.forall_mem_map]
    exact fun x _ => Nat.le_add_right _ _

theorem behind (t : Tree) (h : Listed R rest as) : Listed R (t :: rest) as := by
  obtain ⟨places, hplaces, horder, -⟩ := h.places_behind t
  exact ⟨places, hplaces, horder⟩

theorem cons (ha : R t a) (h : Listed R rest as) : Listed R (t :: rest) (a :: as) := by
  obtain ⟨places, hplaces, horder, hle⟩ := h.places_behind t
  refine ⟨(0, t) :: places, .cons ⟨.here t rest, ha⟩ hplaces, .cons (fun x hx => ?_) horder⟩
  rw [Nat.zero_add]
  exact hle x hx

/-- Whatever a tree yields, if anything, comes before what the trees behind it yield. -/
theorem option {o : Option α} (ho : ∀ a, o = some a → R t a) (h : Listed R rest as) :
    Listed R (t :: rest) (o.toList ++ as) := by
  cases o with
  | none => exact h.behind t
  | some a => exact h.cons (ho a rfl)

theorem opened (h : Listed R (ts ++ rest) as) : Listed R (.node p ts :: rest) as := by
  obtain ⟨places, hplaces, horder⟩ := h
  exact ⟨places, hplaces.imp fun x a h => ⟨h.1.opened, h.2⟩, horder⟩

theorem filterMap (f : Tree → Option α) (trees : List Tree) :
    Listed (fun t a => f t = some a) trees (trees.filterMap f) := by
  induction trees with
  | nil => exact .nil _ _
  | cons t rest ih =>
    have h := ih.option (t := t) (o := f t) fun a ha => ha
    cases hft : f t <;> simpa [List.filterMap_cons, hft] using h

end Listed

end ContractMigration.Solidity
