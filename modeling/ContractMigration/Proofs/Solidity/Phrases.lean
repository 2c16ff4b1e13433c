import ContractMigration.Proofs.Solidity.Reading
import Mathlib.Data.List.Forall2

/-! What phrases are made of. The children of a phrase are what the rule has read that the phrase stands around, wherever
in a source it is found; and two trees of one shape have their tokens in pairs. -/

namespace ContractMigration.Solidity

/-! ### Every phrase of a tree -/

namespace Tree

mutual

/-- Every phrase of a tree has children as `Q` says. -/
def Each (Q : Phrase → List Tree → Prop) : Tree → Prop
  | leaf _ => True
  | node p ts => Q p ts ∧ EachOf Q ts

/-- Every phrase of several trees has children as `Q` says. -/
def EachOf (Q : Phrase → List Tree → Prop) : List Tree → Prop
  | [] => True
  | t :: r => t.Each Q ∧ EachOf Q r

end

variable {Q : Phrase → List Tree → Prop}

theorem eachOf_iff {ts : List Tree} : EachOf Q ts ↔ ∀ t ∈ ts, t.Each Q := by
  induction ts with
  | nil => simp [EachOf]
  | cons t ts ih => simp [EachOf, ih]

theorem eachOf_append {xs ys : List Tree} : EachOf Q (xs ++ ys) ↔ EachOf Q xs ∧ EachOf Q ys := by
  simp only [eachOf_iff, List.mem_append, or_imp, forall_and]

theorem Each.children {t : Tree} (h : t.Each Q) : ∀ u ∈ t.children, u.Each Q := by
  cases t with
  | leaf _ => simp [Tree.children]
  | node p ts => exact eachOf_iff.mp h.2

theorem Each.of_phrase? {t : Tree} {p : Phrase} (h : t.Each Q) (hp : t.phrase? = some p) : Q p t.children := by
  cases t with
  | leaf _ => cases hp
  | node q ts =>
    obtain rfl := Option.some.inj hp
    exact h.1

end Tree

namespace Rule

variable {N : Type} {grammar : N → Rule N} {depth : ℕ} {c c' : Cursor} {xs : List Tree}

/-- Whatever a rule reads is as `Q` says. -/
def Yields (grammar : N → Rule N) (Q : List Tree → Prop) (r : Rule N) : Prop :=
  ∀ {depth c c' xs}, c.Proper → parse grammar depth r c = some (xs, c') → Q xs

/-- The phrases of a rule, each with the rule that it stands around, without those of other rules. -/
def frames : Rule N → List (Phrase × Rule N)
  | seq a b => a.frames ++ b.frames
  | alt a b => a.frames ++ b.frames
  | opt a => a.frames
  | many a => a.frames
  | phrase p a => (p, a) :: a.frames
  | _ => []

/-- If whatever a phrase stands around yields what `Q` says, every phrase that is read is so. -/
theorem eachOf_of_parse {Q : Phrase → List Tree → Prop} {r : Rule N}
    (hg : ∀ n, ∀ pa ∈ (grammar n).frames, pa.2.Yields grammar (Q pa.1))
    (hr : ∀ pa ∈ r.frames, pa.2.Yields grammar (Q pa.1)) (hc : c.Proper)
    (h : parse grammar depth r c = some (xs, c')) : Tree.EachOf Q xs := by
  induction depth generalizing r c c' xs with
  | zero => cases h
  | succ depth ih =>
    cases fits_of_parse h with
    | empty => trivial
    | token ht => exact ⟨trivial, trivial⟩
    | seq ha hb =>
      rw [frames, List.forall_mem_append] at hr
      exact Tree.eachOf_append.mpr ⟨ih hr.1 hc ha, ih hr.2 ((reads_of_parse ha).proper hc) hb⟩
    | first b ha =>
      rw [frames, List.forall_mem_append] at hr
      exact ih hr.1 hc ha
    | second ha hb =>
      rw [frames, List.forall_mem_append] at hr
      exact ih hr.2 hc hb
    | @given a _ _ _ ha => exact ih (r := a) hr hc ha
    | missing ha => trivial
    | @again a _ _ _ _ _ ha hmany =>
      exact Tree.eachOf_append.mpr ⟨ih (r := a) hr hc ha, ih hr ((reads_of_parse ha).proper hc) hmany⟩
    | enough ha => trivial
    | ahead ha => trivial
    | absent ha => trivial
    | phrase p ha =>
      rw [frames, List.forall_mem_cons] at hr
      exact ⟨⟨hr.1 hc ha, ih hr.2 hc ha⟩, trivial⟩
    | ref h => exact ih (hg _) hc h

/-- A rule reads nothing but tokens of kinds that `ok` allows, and refers to no rules but those that are `known`. -/
def spells (ok : Pattern → Bool) (known : N → Bool) : Rule N → Bool
  | token p => ok p
  | seq a b => a.spells ok known && b.spells ok known
  | alt a b => a.spells ok known && b.spells ok known
  | opt a => a.spells ok known
  | many a => a.spells ok known
  | phrase _ a => a.spells ok known
  | ref n => known n
  | _ => true

theorem read_of_spells {ok : Pattern → Bool} {known : N → Bool}
    (hg : ∀ n, known n = true → (grammar n).spells ok known = true) {r : Rule N} (hr : r.spells ok known = true)
    (hc : c.Proper) (h : parse grammar depth r c = some (xs, c')) :
    ∀ t ∈ Tree.tokensOf xs, ∃ p c c', ok p = true ∧ c.Proper ∧ p.read? c = some (t, c') := by
  induction depth generalizing r c c' xs with
  | zero => cases h
  | succ depth ih =>
    have two : ∀ {a b : Rule N} {ys zs : List Tree} {c₁ : Cursor}, a.spells ok known = true →
        b.spells ok known = true → parse grammar depth a c = some (ys, c₁) → parse grammar depth b c₁ = some (zs, c') →
        ∀ t ∈ Tree.tokensOf (ys ++ zs), ∃ p c c', ok p = true ∧ c.Proper ∧ p.read? c = some (t, c') := by
      intro a b ys zs c₁ ha hb hys hzs t ht
      rw [Tree.tokensOf_append, List.mem_append] at ht
      rcases ht with ht | ht
      · exact ih ha hc hys t ht
      · exact ih hb ((reads_of_parse hys).proper hc) hzs t ht
    cases fits_of_parse h with
    | empty => simp [Tree.tokensOf]
    | @token p _ _ t ht => simpa [Tree.tokensOf, Tree.tokens] using ⟨p, hr, c, hc, c', ht⟩
    | seq ha hb =>
      rw [spells, Bool.and_eq_true] at hr
      exact two hr.1 hr.2 ha hb
    | first b ha =>
      rw [spells, Bool.and_eq_true] at hr
      exact ih hr.1 hc ha
    | second ha hb =>
      rw [spells, Bool.and_eq_true] at hr
      exact ih hr.2 hc hb
    | @given a _ _ _ ha => exact ih (r := a) hr hc ha
    | missing ha => simp [Tree.tokensOf]
    | @again a _ _ _ _ _ ha hmany => exact two (a := a) hr hr ha hmany
    | enough ha => simp [Tree.tokensOf]
    | ahead ha => simp [Tree.tokensOf]
    | absent ha => simp [Tree.tokensOf]
    | @phrase p a _ _ _ ha => simpa [Tree.tokensOf, Tree.tokens] using ih (r := a) hr hc ha
    | @ref n _ _ _ h => exact ih (hg n hr) hc h

end Rule

/-! ### Trees of one shape -/

mutual

/-- Two trees have one shape, and their tokens are in pairs as `R` says. -/
inductive Tree.Like (R : Token → Token → Prop) : Tree → Tree → Prop
  | leaf {t t' : Token} (h : R t t') : Tree.Like R (.leaf t) (.leaf t')
  | node (p : Phrase) {ts ts' : List Tree} (h : Tree.Likes R ts ts') : Tree.Like R (.node p ts) (.node p ts')

/-- Several trees have one shape each. -/
inductive Tree.Likes (R : Token → Token → Prop) : List Tree → List Tree → Prop
  | nil : Tree.Likes R [] []
  | cons {t t' : Tree} {ts ts' : List Tree} (h : Tree.Like R t t') (hr : Tree.Likes R ts ts') :
      Tree.Likes R (t :: ts) (t' :: ts')

end

namespace Tree

variable {R : Token → Token → Prop} {t t' : Tree} {ts ts' us us' : List Tree}

mutual

theorem Like.tokens : {t t' : Tree} → t.Like R t' → List.Forall₂ R t.tokens t'.tokens
  | _, _, .leaf h => .cons h .nil
  | _, _, .node _ h => h.tokensOf

theorem Likes.tokensOf : {ts ts' : List Tree} → Likes R ts ts' → List.Forall₂ R (tokensOf ts) (tokensOf ts')
  | _, _, .nil => .nil
  | _, _, .cons h hr => List.rel_append h.tokens hr.tokensOf

end

theorem Likes.forall₂ (h : Likes R ts ts') : List.Forall₂ (Like R) ts ts' := by
  induction ts generalizing ts' with
  | nil =>
    cases h
    exact .nil
  | cons t ts ih =>
    cases h with
    | cons h hr => exact .cons h (ih hr)

theorem Likes.append (h : Likes R ts ts') (h' : Likes R us us') : Likes R (ts ++ us) (ts' ++ us') := by
  induction ts generalizing ts' with
  | nil =>
    cases h
    exact h'
  | cons t ts ih =>
    cases h with
    | cons h hr => exact .cons h (ih hr)

theorem Like.phrase? (h : t.Like R t') : t'.phrase? = t.phrase? := by
  cases h <;> rfl

theorem Like.children (h : t.Like R t') : Likes R t.children t'.children := by
  cases h with
  | leaf h => exact .nil
  | node p h => exact h

/-- The trees of one kind are in pairs as well. -/
theorem Likes.filter (h : Likes R ts ts') (p : Phrase) : List.Forall₂ (Like R)
    (ts.filter fun t => t.phrase? == some p) (ts'.filter fun t => t.phrase? == some p) := by
  have hpairs := h.forall₂
  clear h
  induction hpairs with
  | nil => exact .nil
  | cons h hr ih =>
    rw [List.filter_cons, List.filter_cons, h.phrase?]
    split_ifs
    · exact .cons h ih
    · exact ih

theorem Like.child? (h : t.Like R t') (p : Phrase) :
    (t.child? p = none ∧ t'.child? p = none) ∨ ∃ u u', t.child? p = some u ∧ t'.child? p = some u' ∧ u.Like R u' := by
  have hpairs := h.children.forall₂
  rw [Tree.child?, Tree.child?]
  generalize t.children = ts at hpairs
  generalize t'.children = ts' at hpairs
  induction hpairs with
  | nil => exact .inl ⟨rfl, rfl⟩
  | @cons u u' us us' hu hus ih =>
    rw [List.find?_cons, List.find?_cons, hu.phrase?]
    cases u.phrase? == some p with
    | true => exact .inr ⟨u, u', rfl, rfl, hu⟩
    | false => exact ih

theorem Like.has (h : t.Like R t') (p : Phrase) : t'.has p = t.has p := by
  rcases h.child? p with ⟨hn, hn'⟩ | ⟨u, u', hu, hu', -⟩
  · rw [Tree.has, Tree.has, hn, hn']
  · rw [Tree.has, Tree.has, hu, hu', Option.isSome_some, Option.isSome_some]

end Tree

end ContractMigration.Solidity
