import ContractMigration.Proofs.Solidity.Literals

/-! The text in front of a gap in pieces: single characters, layout and literals. However a rule cuts such a text into
tokens, whether it gets far with that or not, it does so along these pieces, so that it never gets inside a comment or a
literal. -/

namespace ContractMigration.Solidity

/-- What precedes a hexadecimal string. -/
def hexWord : List Char := ['h', 'e', 'x']

/-- A text in pieces, in front of `x` and behind the characters `prev`, which are counted from the last literal on and
without layout. A literal behind `hex` has to be readable as a hexadecimal string. -/
inductive Pieces (x : List Char) : List Char → List Char → Prop
  | nil (prev : List Char) : Pieces x prev []
  | char {prev r : List Char} {c : Char} (hquote : isQuote c = false) (hzero : layoutSize (c :: r ++ x) = 0)
      (h : Pieces x (prev ++ [c]) r) : Pieces x prev (c :: r)
  | layout {prev l r : List Char} (hl : IsLayout l) (hne : l ≠ []) (h : Pieces x prev r) : Pieces x prev (l ++ r)
  | literal {prev l r : List Char} (hl : IsLiteral l) (hhex : hexWord <:+ prev → hexPlain l = true)
      (h : Pieces x [] r) : Pieces x prev (l ++ r)

namespace Pieces

variable {x prev r : List Char} {c : Char}

theorem layoutSize_of_isQuote {q : Char} (hq : isQuote q = true) (s : List Char) : layoutSize (q :: s) = 0 := by
  rw [layoutSize_of_ne_slash s (StringPlace.ne_of_isQuote hq).2, if_neg]
  simp only [isQuote, Bool.or_eq_true, beq_iff_eq] at hq
  rcases hq with rfl | rfl <;> decide

/-- What is left behind the layout in front: nothing, or text that does not begin with layout. -/
theorem skip (h : Pieces x prev r) :
    ∃ l m, r = l ++ m ∧ IsLayout l ∧ Pieces x prev m ∧ (m = [] ∨ m ≠ [] ∧ layoutSize (m ++ x) = 0) := by
  induction h with
  | nil prev => exact ⟨[], [], rfl, .nothing, .nil prev, .inl rfl⟩
  | @char prev r c hquote hzero h ih => exact ⟨[], c :: r, rfl, .nothing, .char hquote hzero h, .inr ⟨nofun, hzero⟩⟩
  | @layout prev l r hl hne h ih =>
    obtain ⟨l', m, rfl, hl', hm, hend⟩ := ih
    exact ⟨l ++ l', m, (List.append_assoc _ _ _).symm, Gap.Ends.append hl hl', hm, hend⟩
  | @literal prev l r hl hhex h ih =>
    obtain ⟨q, s, rfl, hq⟩ := hl.opens
    exact ⟨[], q :: s ++ r, rfl, .nothing, .literal hl hhex h, .inr ⟨nofun, layoutSize_of_isQuote hq _⟩⟩

theorem head_ne_of_layout {l m : List Char} (hl : IsLayout l) (hne : l ≠ []) (hzero : layoutSize (l ++ m) = 0) : False := by
  rw [hl.layoutSize_append] at hzero
  have hpos := List.length_pos_iff.mpr hne
  omega

/-- A token begins with a character by itself, or with a literal. -/
theorem first (h : Pieces x prev (c :: r)) (hzero : layoutSize (c :: r ++ x) = 0) (hquote : isQuote c = false) :
    Pieces x (prev ++ [c]) r := by
  generalize hs : c :: r = s at h
  cases h with
  | nil => cases hs
  | char _ _ h =>
    obtain ⟨rfl, rfl⟩ := List.cons.inj hs
    exact h
  | @layout _ l m hl hne h =>
    rw [hs, List.append_assoc] at hzero
    exact (head_ne_of_layout hl hne hzero).elim
  | @literal _ l m hl hhex h =>
    obtain ⟨q, s, rfl, hq⟩ := hl.opens
    obtain ⟨rfl, -⟩ := List.cons.inj hs
    exact absurd hq (by simp [hquote])

theorem first_literal (h : Pieces x prev (c :: r)) (hquote : isQuote c = true) :
    ∃ l m, c :: r = l ++ m ∧ IsLiteral l ∧ (hexWord <:+ prev → hexPlain l = true) ∧ Pieces x [] m := by
  generalize hs : c :: r = s at h
  cases h with
  | nil => cases hs
  | char hq _ h =>
    obtain ⟨rfl, rfl⟩ := List.cons.inj hs
    exact absurd hquote (by simp [hq])
  | @layout _ l m hl hne h =>
    have hzero := layoutSize_of_isQuote hquote r
    rw [hs] at hzero
    exact (head_ne_of_layout hl hne hzero).elim
  | @literal _ l m hl hhex h => exact ⟨l, m, rfl, hl, hhex, h⟩

/-- Characters of words, numbers and symbols are pieces by themselves. -/
theorem drop {u : List Char} (hu : ∀ c ∈ u, c ∉ breaks) (h : Pieces x prev (u ++ r)) : Pieces x (prev ++ u) r := by
  induction u generalizing prev with
  | nil => simpa using h
  | cons c u ih =>
    rw [List.forall_mem_cons] at hu
    have hlayout : isLayout c = false := Bool.eq_false_iff.mpr fun hc => hu.1 (mem_breaks_of_isLayout hc)
    have hquote : isQuote c = false := Bool.eq_false_iff.mpr fun hc => hu.1 (mem_breaks_of_isQuote hc)
    have hslash : c ≠ '/' := by
      rintro rfl
      exact hu.1 (by decide)
    have hzero : layoutSize (c :: (u ++ r) ++ x) = 0 := by
      rw [List.cons_append, layoutSize_of_ne_slash _ hslash, if_neg (by simp [hlayout])]
    simpa using ih hu.2 (first h hzero hquote)

end Pieces

end ContractMigration.Solidity
