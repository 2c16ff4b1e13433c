import ContractMigration.Proofs.Solidity.Seams

/-! Rules read side by side in a text and in the same text with another gap. Both fit or neither does, and what they read
has one shape. It is an induction on the depth; the patterns have been compared token by token. -/

namespace ContractMigration.Solidity

namespace Tree

variable {R : Token → Token → Prop}

mutual

theorem Like.refl (hR : ∀ t, R t t) : (t : Tree) → t.Like R t
  | .leaf t => .leaf (hR t)
  | .node p ts => .node p (Likes.refl hR ts)

theorem Likes.refl (hR : ∀ t, R t t) : (ts : List Tree) → Likes R ts ts
  | [] => .nil
  | t :: ts => .cons (Like.refl hR t) (Likes.refl hR ts)

end

end Tree

variable {gap gap' rest : List Char}

theorem Paired.refl (t : Token) : Paired gap gap' t t := ⟨rfl, .inl rfl⟩

/-- What a rule reads in one text and in the other: trees of one shape, and the places behind are abreast. -/
def SameTrees (gap gap' rest : List Char) (xc xc' : List Tree × Cursor) : Prop :=
  Tree.Likes (Paired gap gap') xc.1 xc'.1 ∧ Abreast gap gap' rest xc.2 xc'.2

section Relations

variable {α β : Type} {R : α → α → Prop} {S : β → β → Prop} {o o' : Option α}

theorem rel_map {f f' : α → β} (h : Option.Rel R o o') (hf : ∀ x x', R x x' → S (f x) (f' x')) :
    Option.Rel S (o.map f) (o'.map f') := by
  cases h with
  | none => exact .none
  | some hx => exact .some (hf _ _ hx)

theorem rel_bind {f f' : α → Option β} (h : Option.Rel R o o') (hf : ∀ x x', R x x' → Option.Rel S (f x) (f' x')) :
    Option.Rel S (o.bind f) (o'.bind f') := by
  cases h with
  | none => exact .none
  | some hx => exact hf _ _ hx

theorem rel_elim {b b' : Option β} {f f' : α → Option β} (h : Option.Rel R o o') (hb : Option.Rel S b b')
    (hf : ∀ x x', R x x' → Option.Rel S (f x) (f' x')) : Option.Rel S (o.elim b f) (o'.elim b' f') := by
  cases h with
  | none => exact hb
  | some hx => exact hf _ _ hx

theorem rel_or {p p' : Option α} (h : Option.Rel R o o') (h' : Option.Rel R p p') :
    Option.Rel R (o.or p) (o'.or p') := by
  cases h with
  | none => exact h'
  | some hx => exact .some hx

theorem rel_getD {x x' : α} (h : Option.Rel R o o') (hx : R x x') : R (o.getD x) (o'.getD x') := by
  cases h with
  | none => exact hx
  | some h => exact h

theorem exists_of_rel (h : Option.Rel R (some x) o') : ∃ x', o' = some x' ∧ R x x' := by
  cases h with
  | some h => exact ⟨_, rfl, h⟩

theorem eq_none_of_rel (h : Option.Rel R none o') : o' = none := by
  cases h
  rfl

end Relations

namespace Rule

variable {N : Type} {grammar : N → Rule N}

/-- A hexadecimal string behind its word. -/
def isHexString : Rule N → Bool
  | seq (token (.word w)) (token .hexString) => w == "hex"
  | _ => false

/-- A rule whose patterns do not look into a gap, and which refers to such rules only. -/
def tame (known : N → Bool) : Rule N → Bool
  | token p => p.tame
  | seq a b => isHexString (seq a b) || a.tame known && b.tame known
  | alt a b => a.tame known && b.tame known
  | opt a => a.tame known
  | many a => a.tame known
  | ahead a => a.tame known
  | absent a => a.tame known
  | phrase _ a => a.tame known
  | ref n => known n
  | _ => true

theorem eq_of_isHexString {r : Rule N} (h : isHexString r = true) :
    r = seq (token (.word "hex")) (token .hexString) := by
  unfold isHexString at h
  split at h
  · rw [beq_iff_eq] at h
    rw [h]
  · cases h

theorem parse_token_abreast {p : Pattern} {c c' : Cursor} (depth : ℕ)
    (h : Option.Rel (SameToken gap gap' rest) (p.read? c) (p.read? c')) :
    Option.Rel (SameTrees gap gap' rest) (parse grammar depth (token p) c) (parse grammar depth (token p) c') := by
  cases depth with
  | zero => exact .none
  | succ depth =>
    rw [parse_token, parse_token]
    exact rel_map h fun tc tc' ht => ⟨.cons (.leaf ht.1) .nil, ht.2⟩

theorem parse_hexString_abreast (hs : Seam gap gap' rest) (depth : ℕ) {c c' : Cursor} (h : Abreast gap gap' rest c c') :
    Option.Rel (SameTrees gap gap' rest) (parse grammar depth (seq (token (.word "hex")) (token .hexString)) c)
      (parse grammar depth (seq (token (.word "hex")) (token .hexString)) c') := by
  cases depth with
  | zero => exact .none
  | succ depth =>
    rw [parse_seq, parse_seq]
    cases depth with
    | zero => exact .none
    | succ depth =>
      rw [parse_token, parse_token]
      rw [Option.bind_map, Option.bind_map]
      refine rel_bind (read?_hexWord hs h) fun tc tc' ht => ?_
      refine rel_map (parse_token_abreast (depth + 1) ht.2) fun yc yc' hy => ?_
      exact ⟨.cons (.leaf ht.1) hy.1, hy.2⟩

/-- In two texts that differ in one gap, a rule fits in both or in none. -/
theorem parse_abreast {known : N → Bool} (hg : ∀ n, known n = true → (grammar n).tame known = true)
    (hs : Seam gap gap' rest) {depth : ℕ} {r : Rule N} (hr : r.tame known = true) {c c' : Cursor}
    (h : Abreast gap gap' rest c c') :
    Option.Rel (SameTrees gap gap' rest) (parse grammar depth r c) (parse grammar depth r c') := by
  induction depth generalizing r c c' with
  | zero => exact .none
  | succ depth ih =>
    -- what follows is read from abreast places as well
    have next : ∀ {b : Rule N}, b.tame known = true → ∀ xc xc', SameTrees gap gap' rest xc xc' →
        Option.Rel (SameTrees gap gap' rest)
          ((parse grammar depth b xc.2).map fun yc => (xc.1 ++ yc.1, yc.2))
          ((parse grammar depth b xc'.2).map fun yc => (xc'.1 ++ yc.1, yc.2)) := fun hb xc xc' hx =>
      rel_map (ih hb hx.2) fun yc yc' hy => ⟨hx.1.append hy.1, hy.2⟩
    have here : SameTrees gap gap' rest ([], c) ([], c') := ⟨.nil, h⟩
    cases r with
    | empty => exact .some here
    | fail => exact .none
    | token p => exact parse_token_abreast _ (read?_abreast hs hr h)
    | seq a b =>
      rw [tame, Bool.or_eq_true] at hr
      rcases hr with hhex | hr
      · rw [eq_of_isHexString hhex]
        exact parse_hexString_abreast hs _ h
      · rw [Bool.and_eq_true] at hr
        rw [parse_seq, parse_seq]
        exact rel_bind (ih hr.1 h) (next hr.2)
    | alt a b =>
      rw [tame, Bool.and_eq_true] at hr
      rw [parse_alt, parse_alt]
      exact rel_or (ih hr.1 h) (ih hr.2 h)
    | opt a =>
      rw [parse_opt, parse_opt]
      exact .some (rel_getD (ih (r := a) hr h) here)
    | many a =>
      rw [parse_many, parse_many]
      exact rel_elim (ih (r := a) hr h) (.some here) (next hr)
    | ahead a =>
      rw [parse_ahead, parse_ahead]
      exact rel_map (ih (r := a) hr h) fun _ _ _ => here
    | absent a =>
      rw [parse_absent, parse_absent]
      exact rel_elim (ih (r := a) hr h) (.some here) fun _ _ _ => .none
    | phrase p a =>
      rw [parse_phrase, parse_phrase]
      exact rel_map (ih (r := a) hr h) fun xc xc' hx => ⟨.cons (.node p hx.1) .nil, hx.2⟩
    | ref n => exact ih (hg n hr) h

end Rule

/-! ### The grammar of sources -/

namespace Grammar

/-- The rules that are read between the elements of a source. -/
def inner : Nonterminal → Bool
  | .source | .element => false
  | _ => true

theorem tame_of_inner (n : Nonterminal) (h : inner n = true) : (rule n).tame inner = true := by
  cases n with
  | source => cases h
  | element => cases h
  | guarded b => cases b <;> decide +kernel
  | guardedOperand b => cases b <;> decide +kernel
  | _ => decide +kernel

end Grammar

end ContractMigration.Solidity
