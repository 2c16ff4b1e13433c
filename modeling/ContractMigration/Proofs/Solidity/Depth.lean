import ContractMigration.Proofs.Solidity.Reading

/-! How deep a source can nest. A rule that is entered again and again reads something in between, so the depth that is
needed grows with what is left to be read. A bound on the depth that is large enough is as good as any larger one: it
never decides which alternative is taken. -/

namespace ContractMigration.Solidity

namespace Rule

variable {N : Type}

/-- Whether a rule may read nothing, if the rules of `empties` may. -/
def nullable (empties : N → Bool) : Rule N → Bool
  | empty => true
  | fail => false
  | token p => !p.takes
  | seq a b => a.nullable empties && b.nullable empties
  | alt a b => a.nullable empties || b.nullable empties
  | opt _ => true
  | many _ => true
  | ahead _ => true
  | absent _ => true
  | phrase _ a => a.nullable empties
  | ref n => empties n

/-- How deep a rule gets until it has read something, if the rules with names get as deep as `heights` says. For what is
read there are 256 more. -/
def height (empties : N → Bool) (heights : N → ℕ) : Rule N → ℕ
  | empty => 1
  | fail => 1
  | token _ => 1
  | seq a b => max (a.height empties heights)
      (if a.nullable empties then b.height empties heights else b.height empties heights - 256) + 1
  | alt a b => max (a.height empties heights) (b.height empties heights) + 1
  | opt a => a.height empties heights + 1
  | many a => a.height empties heights + 1
  | ahead a => a.height empties heights + 1
  | absent a => a.height empties heights + 1
  | phrase _ a => a.height empties heights + 1
  | ref n => heights n + 1

/-- Whatever is repeated reads something. -/
def advances (empties : N → Bool) : Rule N → Bool
  | seq a b => a.advances empties && b.advances empties
  | alt a b => a.advances empties && b.advances empties
  | opt a => a.advances empties
  | many a => !a.nullable empties && a.advances empties
  | ahead a => a.advances empties
  | absent a => a.advances empties
  | phrase _ a => a.advances empties
  | _ => true

/-- A grammar in which no rule comes back to itself before it has read something. -/
structure Grounded (grammar : N → Rule N) (empties : N → Bool) (heights : N → ℕ) : Prop where
  nullable : ∀ n, (grammar n).nullable empties = true → empties n = true
  height : ∀ n, (grammar n).height empties heights ≤ heights n
  advances : ∀ n, (grammar n).advances empties = true

variable {grammar : N → Rule N} {empties : N → Bool} {heights : N → ℕ}

/-- It becomes less, if the rule has to read something. -/
theorem length_lt_of_parse (hg : Grounded grammar empties heights) {depth : ℕ} {r : Rule N} {c c' : Cursor}
    {xs : List Tree} (hc : c.Proper) (h : parse grammar depth r c = some (xs, c')) (hr : r.nullable empties = false) :
    c'.text.length < c.text.length := by
  induction depth generalizing r c c' xs with
  | zero => cases h
  | succ depth ih =>
    cases fits_of_parse h with
    | empty => cases hr
    | token ht => exact Pattern.length_lt_of_read? (by simpa [nullable] using hr) hc ht
    | seq ha hb =>
      have hra := reads_of_parse ha
      have hrb := reads_of_parse hb
      rw [nullable, Bool.and_eq_false_iff] at hr
      rcases hr with hr | hr
      · exact Nat.lt_of_le_of_lt hrb.length_le (ih hc ha hr)
      · exact Nat.lt_of_lt_of_le (ih (hra.proper hc) hb hr) hra.length_le
    | first b ha =>
      rw [nullable, Bool.or_eq_false_iff] at hr
      exact ih hc ha hr.1
    | second ha hb =>
      rw [nullable, Bool.or_eq_false_iff] at hr
      exact ih hc hb hr.2
    | given ha => cases hr
    | missing ha => cases hr
    | again ha hmany => cases hr
    | enough ha => cases hr
    | ahead ha => cases hr
    | absent ha => cases hr
    | phrase p ha => exact ih hc ha hr
    | @ref n _ _ _ h =>
      refine ih hc h (Bool.eq_false_iff.mpr fun hn => ?_)
      exact Bool.eq_false_iff.mp hr (hg.nullable n hn)

/-- One level more makes no difference where the bound is large enough. -/
theorem parse_succ (hg : Grounded grammar empties heights) {depth : ℕ} {r : Rule N} {c : Cursor} (hc : c.Proper)
    (hr : r.advances empties = true) (hdepth : 256 * c.text.length + r.height empties heights ≤ depth) :
    parse grammar (depth + 1) r c = parse grammar depth r c := by
  induction depth generalizing r c with
  | zero =>
    have hpos : 0 < r.height empties heights := by cases r <;> exact Nat.succ_pos _
    omega
  | succ depth ih =>
    cases r with
    | empty => rfl
    | fail => rfl
    | token p => rfl
    | seq a b =>
      rw [advances, Bool.and_eq_true] at hr
      rw [height] at hdepth
      rw [parse_seq, parse_seq, ih hc hr.1 (by omega)]
      refine Option.bind_congr fun ⟨xs, c₁⟩ ha => ?_
      have hra := reads_of_parse ha
      have hle := hra.length_le
      refine congrArg _ (ih (hra.proper hc) hr.2 ?_)
      dsimp only
      split_ifs at hdepth with hnull
      · omega
      · have hlt := length_lt_of_parse hg hc ha (Bool.eq_false_iff.mpr hnull)
        omega
    | alt a b =>
      rw [advances, Bool.and_eq_true] at hr
      rw [height] at hdepth
      rw [parse_alt, parse_alt, ih hc hr.1 (by omega), ih hc hr.2 (by omega)]
    | opt a =>
      rw [height] at hdepth
      rw [parse_opt, parse_opt, ih (r := a) hc hr (by omega)]
    | many a =>
      have hra : advances empties a = true := (Bool.and_eq_true_iff.mp hr).2
      have hnull : a.nullable empties = false := by simpa using (Bool.and_eq_true_iff.mp hr).1
      rw [height] at hdepth
      rw [parse_many, parse_many, ih hc hra (by omega)]
      rcases ha : parse grammar depth a c with _ | ⟨xs, c₁⟩
      · rfl
      · have hlt := length_lt_of_parse hg hc ha hnull
        have hagain : parse grammar (depth + 1) (.many a) c₁ = parse grammar depth (.many a) c₁ :=
          ih ((reads_of_parse ha).proper hc) hr (by rw [height]; omega)
        rw [Option.elim_some, Option.elim_some, hagain]
    | ahead a =>
      rw [height] at hdepth
      rw [parse_ahead, parse_ahead, ih (r := a) hc hr (by omega)]
    | absent a =>
      rw [height] at hdepth
      rw [parse_absent, parse_absent, ih (r := a) hc hr (by omega)]
    | phrase p a =>
      rw [height] at hdepth
      rw [parse_phrase, parse_phrase, ih (r := a) hc hr (by omega)]
    | ref n =>
      rw [height] at hdepth
      have hn := hg.height n
      rw [parse_ref, parse_ref, ih hc (hg.advances n) (by omega)]

/-- Every bound that is large enough is as good as any other one. -/
theorem parse_stable (hg : Grounded grammar empties heights) {depth depth' : ℕ} {r : Rule N} {c : Cursor} (hc : c.Proper)
    (hr : r.advances empties = true) (hdepth : 256 * c.text.length + r.height empties heights ≤ depth)
    (hle : depth ≤ depth') : parse grammar depth' r c = parse grammar depth r c := by
  induction hle with
  | refl => rfl
  | step hle ih => exact (parse_succ hg hc hr (Nat.le_trans hdepth hle)).trans ih

/-- A repetition comes to an end, if the bound is large enough. -/
theorem many_ne_none (hg : Grounded grammar empties heights) {depth : ℕ} {a : Rule N} {c : Cursor} (hc : c.Proper)
    (ha : (many a).advances empties = true) (hdepth : 256 * c.text.length + (many a).height empties heights ≤ depth) :
    parse grammar depth (many a) c ≠ none := by
  induction depth generalizing c with
  | zero =>
    rw [height] at hdepth
    omega
  | succ depth ih =>
    rw [parse_many]
    rcases hparse : parse grammar depth a c with _ | ⟨xs, c₁⟩
    · nofun
    · have hnull : a.nullable empties = false := by simpa using (Bool.and_eq_true_iff.mp ha).1
      have hlt := length_lt_of_parse hg hc hparse hnull
      rw [Option.elim_some, Ne, Option.map_eq_none_iff]
      exact ih (c := c₁) ((reads_of_parse hparse).proper hc) (by omega)

end Rule

/-! ### The grammar of sources -/

namespace Grammar

/-- The rules that may read nothing. -/
def empties : Nonterminal → Bool
  | .source | .dimensions => true
  | _ => false

/-- How many rules may be entered one after the other before something is read. -/
def level : Nonterminal → ℕ
  | .statement => 5
  | .source | .invoked | .simpleStatement => 4
  | .element | .contractMember | .parameter | .attribute | .expression | .guarded _ | .suffix | .localDeclaration
  | .yulStatement | .yulExpression => 3
  | .typeName | .invocation | .operand | .guardedOperand _ | .tightSuffix | .looseSuffix | .invokedOperand | .localType
  | .block | .yulPath => 2
  | _ => 1

theorem grounded : Rule.Grounded rule empties fun n => 40 * level n := by
  have hall : ∀ n, ((rule n).nullable empties = true → empties n = true) ∧
      (rule n).height empties (fun n => 40 * level n) ≤ 40 * level n ∧ (rule n).advances empties = true := by
    intro n
    cases n with
    | guarded b => cases b <;> decide +kernel
    | guardedOperand b => cases b <;> decide +kernel
    | _ => decide +kernel
  exact ⟨fun n => (hall n).1, fun n => (hall n).2.1, fun n => (hall n).2.2⟩

/-- The phrases of a source do not depend on the bound, if that is not too small. -/
theorem parsePhrases_eq {source : String} {depth : ℕ} (h : depthFor source.length ≤ depth) :
    parsePhrases source = Rule.parse rule depth (.ref .source) (.ofText source.toList) := by
  refine (Rule.parse_stable grounded (Cursor.proper_ofText _) rfl ?_ h).symm
  have hle := Cursor.length_ofText_le source.toList
  rw [String.length_toList] at hle
  show _ + (40 * 4 + 1) ≤ _
  rw [depthFor]
  omega

end Grammar

end ContractMigration.Solidity
