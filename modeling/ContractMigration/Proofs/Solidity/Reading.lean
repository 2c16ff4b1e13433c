import ContractMigration.Solidity.Grammar
import ContractMigration.Proofs.Text.Affixes
import Mathlib.Data.Nat.Notation
import Mathlib.Order.Basic
import Mathlib.Tactic.SplitIfs

/-! What is read when a rule fits. However deep a rule nests, what it reads is a row of tokens, each of them where the one
before it has ended, so nothing of a source is lost between them. -/

namespace ContractMigration.Solidity

/-! ### What a token takes -/

theorem stringSize?_eq_some {escapes : Bool} {s : List Char} {n : ℕ} (h : stringSize? escapes s = some n) :
    ∃ q r m, s = q :: r ∧ isQuote q = true ∧ StringPlace.text.size? q escapes r = some m ∧ n = m + 1 := by
  cases s with
  | nil => cases h
  | cons q r =>
    rw [stringSize?] at h
    split_ifs at h with hq
    obtain ⟨m, hm, rfl⟩ := Option.map_eq_some_iff.mp h
    exact ⟨q, r, m, rfl, hq, hm, rfl⟩

theorem hexStringSize?_eq_some {s : List Char} {n : ℕ} (h : hexStringSize? s = some n) :
    ∃ q r m, s = q :: r ∧ isQuote q = true ∧ HexPlace.first.size? q .blank r = some m ∧ n = m + 1 := by
  cases s with
  | nil => cases h
  | cons q r =>
    rw [hexStringSize?] at h
    split_ifs at h with hq
    obtain ⟨m, hm, rfl⟩ := Option.map_eq_some_iff.mp h
    exact ⟨q, r, m, rfl, hq, hm, rfl⟩

/-- The word at a place is that of its text. -/
def Cursor.Proper (c : Cursor) : Prop := c.word = String.ofList (frontWord c.text)

theorem Cursor.proper_ofText (s : List Char) : (Cursor.ofText s).Proper := rfl

theorem Cursor.length_ofText_le (s : List Char) : (Cursor.ofText s).text.length ≤ s.length := by
  simp [Cursor.ofText]

theorem Cursor.lead_append_text (s : List Char) : (Cursor.ofText s).lead ++ (Cursor.ofText s).text = s :=
  List.take_append_drop _ s

/-- Tokens of this kind are never empty. -/
def Pattern.takes : Pattern → Bool
  | .symbol s => s != ""
  | .symbolIn ss => ss.all (· != "")
  | .pragmaValue => false
  | _ => true

namespace Pattern

variable {c c' : Cursor} {n : ℕ}

theorem wordSize?_eq_some {test : Bool} (h : wordSize? c test = some n) : c.word ≠ "" ∧ test = true ∧ c.word.length = n := by
  rw [wordSize?] at h
  split_ifs at h with hif
  exact ⟨hif.1, hif.2, Option.some.inj h⟩

theorem symbolSize?_eq_some {s : String} {text : List Char} (h : symbolSize? s text = some n) :
    s.toList <+: text ∧ s.length = n := by
  obtain ⟨r, hr, hn⟩ := Option.map_eq_some_iff.mp h
  exact ⟨⟨r, (Text.stripStart?_eq_some_iff.mp hr).symm⟩, hn⟩

/-- A token that takes something finds something. -/
theorem pos_of_size? {p : Pattern} (hp : p.takes = true) (hc : c.Proper) (h : p.size? c = some n) :
    0 < n ∧ c.text ≠ [] := by
  have hword : ∀ test, wordSize? c test = some n → 0 < n ∧ c.text ≠ [] := by
    intro test h
    obtain ⟨hne, -, rfl⟩ := wordSize?_eq_some h
    refine ⟨Nat.pos_of_ne_zero fun h0 => hne (String.length_eq_zero_iff.mp h0), fun htext => hne ?_⟩
    rw [hc, htext]
    rfl
  have hsymbol : ∀ s, s ≠ "" → symbolSize? s c.text = some n → 0 < n ∧ c.text ≠ [] := by
    intro s hs h
    obtain ⟨⟨r, hr⟩, rfl⟩ := symbolSize?_eq_some h
    refine ⟨Nat.pos_of_ne_zero fun h0 => hs (String.length_eq_zero_iff.mp h0), fun htext => hs ?_⟩
    rw [htext, List.append_eq_nil_iff] at hr
    exact String.toList_eq_nil_iff.mp hr.1
  cases p with
  | word w => exact hword _ h
  | wordIn ws => exact hword _ h
  | name => exact hword _ h
  | operandName => exact hword _ h
  | elementaryType => exact hword _ h
  | symbol s => exact hsymbol s (by simpa [takes] using hp) h
  | symbolIn ss =>
    obtain ⟨s, hs, h⟩ := List.exists_of_findSome?_eq_some h
    exact hsymbol s (by simpa using List.all_eq_true.mp hp s hs) h
  | number =>
    rw [size?, Cursor.numberSize?] at h
    split_ifs at h with hlt
    obtain rfl := Option.some.inj h
    refine ⟨Nat.zero_lt_of_lt hlt, fun htext => ?_⟩
    rw [htext] at hlt
    exact Nat.not_lt_zero _ hlt
  | plainNumber =>
    rw [size?] at h
    split_ifs at h with hzero
    obtain rfl := Option.some.inj h
    refine ⟨Nat.pos_of_ne_zero hzero, fun htext => hzero ?_⟩
    rw [htext]
    rfl
  | string =>
    obtain ⟨q, r, m, htext, -, -, rfl⟩ := stringSize?_eq_some h
    exact ⟨Nat.succ_pos m, by simp [htext]⟩
  | plainString =>
    obtain ⟨q, r, m, htext, -, -, rfl⟩ := stringSize?_eq_some h
    exact ⟨Nat.succ_pos m, by simp [htext]⟩
  | hexString =>
    obtain ⟨q, r, m, htext, -, -, rfl⟩ := hexStringSize?_eq_some h
    exact ⟨Nat.succ_pos m, by simp [htext]⟩
  | version =>
    rw [size?, versionSize?] at h
    split_ifs at h with hzero
    obtain rfl := Option.some.inj h
    refine ⟨by omega, fun htext => hzero ?_⟩
    rw [htext]
    rfl
  | pragmaValue => cases hp

theorem read?_eq_some {p : Pattern} {t : Token} (h : p.read? c = some (t, c')) :
    ∃ n, p.size? c = some n ∧ t = ⟨String.ofList c.lead, String.ofList (c.text.take n)⟩ ∧
      c' = .ofText (c.text.drop n) := by
  obtain ⟨n, hn, e⟩ := Option.map_eq_some_iff.mp h
  obtain ⟨rfl, rfl⟩ := Prod.mk.inj e
  exact ⟨n, hn, rfl, rfl⟩

theorem proper_of_read? {p : Pattern} {t : Token} (h : p.read? c = some (t, c')) : c'.Proper := by
  obtain ⟨n, -, -, rfl⟩ := read?_eq_some h
  exact Cursor.proper_ofText _

theorem length_of_read? {p : Pattern} {t : Token} (h : p.read? c = some (t, c')) : c'.text.length ≤ c.text.length := by
  obtain ⟨n, -, -, rfl⟩ := read?_eq_some h
  refine Nat.le_trans (Cursor.length_ofText_le _) ?_
  rw [List.length_drop]
  exact Nat.sub_le _ _

theorem length_lt_of_read? {p : Pattern} (hp : p.takes = true) (hc : c.Proper) {t : Token}
    (h : p.read? c = some (t, c')) : c'.text.length < c.text.length := by
  obtain ⟨n, hn, -, rfl⟩ := read?_eq_some h
  obtain ⟨hpos, htext⟩ := pos_of_size? hp hc hn
  refine Nat.lt_of_le_of_lt (Cursor.length_ofText_le _) ?_
  rw [List.length_drop]
  exact Nat.sub_lt (List.length_pos_iff.mpr htext) hpos

end Pattern

/-! ### Rows of tokens -/

/-- Tokens are read one after the other. -/
inductive Reads : Cursor → List Token → Cursor → Prop
  | nil (c : Cursor) : Reads c [] c
  | cons {c c₁ c₂ : Cursor} {p : Pattern} {t : Token} {ts : List Token} (hp : p.read? c = some (t, c₁))
      (h : Reads c₁ ts c₂) : Reads c (t :: ts) c₂

namespace Reads

variable {c c₁ c₂ : Cursor} {ts us : List Token}

theorem append (h : Reads c ts c₁) (h' : Reads c₁ us c₂) : Reads c (ts ++ us) c₂ := by
  induction h with
  | nil => exact h'
  | cons hp _ ih => exact .cons hp (ih h')

theorem proper (h : Reads c ts c₁) (hc : c.Proper) : c₁.Proper := by
  induction h with
  | nil => exact hc
  | cons hp _ ih => exact ih (Pattern.proper_of_read? hp)

theorem length_le (h : Reads c ts c₁) : c₁.text.length ≤ c.text.length := by
  induction h with
  | nil => exact Nat.le_refl _
  | cons hp _ ih => exact Nat.le_trans ih (Pattern.length_of_read? hp)

end Reads

/-- The text of several tokens, each with the layout in front of it. -/
def spelled (ts : List Token) : List Char := ts.flatMap fun t => t.leading.toList ++ t.text.toList

theorem spelled_cons (t : Token) (ts : List Token) :
    spelled (t :: ts) = t.leading.toList ++ (t.text.toList ++ spelled ts) := by
  rw [spelled, List.flatMap_cons, List.append_assoc, spelled]

theorem spelled_append (ts us : List Token) : spelled (ts ++ us) = spelled ts ++ spelled us := List.flatMap_append

/-- What has been read and what is left are the text again. -/
theorem Reads.spelled {c c' : Cursor} {ts : List Token} (h : Reads c ts c') :
    c.lead ++ c.text = spelled ts ++ (c'.lead ++ c'.text) := by
  induction h with
  | nil => rfl
  | cons hp _ ih =>
    obtain ⟨n, -, rfl, rfl⟩ := Pattern.read?_eq_some hp
    rw [Cursor.lead_append_text] at ih
    rw [Solidity.spelled, List.flatMap_cons, ← Solidity.spelled, List.append_assoc, ← ih]
    simp

theorem Tree.tokensOf_append (xs ys : List Tree) : Tree.tokensOf (xs ++ ys) = Tree.tokensOf xs ++ Tree.tokensOf ys := by
  induction xs with
  | nil => rfl
  | cons x xs ih => rw [List.cons_append, tokensOf, tokensOf, ih, List.append_assoc]

namespace Rule

variable {N : Type} {grammar : N → Rule N} {depth : ℕ}

section Equations

attribute [local simp] parse

variable (a b : Rule N) (c : Cursor)

theorem parse_token (p : Pattern) :
    parse grammar (depth + 1) (.token p) c = (p.read? c).map fun tc => ([.leaf tc.1], tc.2) := rfl

theorem parse_seq : parse grammar (depth + 1) (.seq a b) c = (parse grammar depth a c).bind fun xc =>
    (parse grammar depth b xc.2).map fun yc => (xc.1 ++ yc.1, yc.2) := by
  rcases h : parse grammar depth a c with _ | ⟨xs, c₁⟩
  · simp [h]
  · cases h' : parse grammar depth b c₁ <;> simp [h, h']

theorem parse_alt : parse grammar (depth + 1) (.alt a b) c = (parse grammar depth a c).or (parse grammar depth b c) := by
  cases h : parse grammar depth a c <;> simp [h]

theorem parse_opt : parse grammar (depth + 1) (.opt a) c = some ((parse grammar depth a c).getD ([], c)) := by
  cases h : parse grammar depth a c <;> simp [h]

theorem parse_many : parse grammar (depth + 1) (.many a) c = (parse grammar depth a c).elim (some ([], c)) fun xc =>
    (parse grammar depth (.many a) xc.2).map fun yc => (xc.1 ++ yc.1, yc.2) := by
  rcases h : parse grammar depth a c with _ | ⟨xs, c₁⟩
  · simp [h]
  · cases h' : parse grammar depth (.many a) c₁ <;> simp [h, h']

theorem parse_ahead : parse grammar (depth + 1) (.ahead a) c = (parse grammar depth a c).map fun _ => ([], c) := by
  cases h : parse grammar depth a c <;> simp [h]

theorem parse_absent : parse grammar (depth + 1) (.absent a) c =
    (parse grammar depth a c).elim (some ([], c)) fun _ => none := by
  cases h : parse grammar depth a c <;> simp [h]

theorem parse_phrase (p : Phrase) :
    parse grammar (depth + 1) (.phrase p a) c = (parse grammar depth a c).map fun xc => ([.node p xc.1], xc.2) := by
  cases h : parse grammar depth a c <;> simp [h]

theorem parse_ref (n : N) : parse grammar (depth + 1) (.ref n) c = parse grammar depth (grammar n) c := rfl

end Equations

/-- How a rule can fit, one level further down. -/
inductive Fits (grammar : N → Rule N) (depth : ℕ) : Rule N → Cursor → List Tree → Cursor → Prop
  | empty (c : Cursor) : Fits grammar depth .empty c [] c
  | token {p : Pattern} {c c' : Cursor} {t : Token} (h : p.read? c = some (t, c')) :
      Fits grammar depth (.token p) c [.leaf t] c'
  | seq {a b : Rule N} {c c₁ c₂ : Cursor} {xs ys : List Tree} (ha : parse grammar depth a c = some (xs, c₁))
      (hb : parse grammar depth b c₁ = some (ys, c₂)) : Fits grammar depth (.seq a b) c (xs ++ ys) c₂
  | first {a : Rule N} (b : Rule N) {c c' : Cursor} {xs : List Tree} (ha : parse grammar depth a c = some (xs, c')) :
      Fits grammar depth (.alt a b) c xs c'
  | second {a b : Rule N} {c c' : Cursor} {xs : List Tree} (ha : parse grammar depth a c = none)
      (hb : parse grammar depth b c = some (xs, c')) : Fits grammar depth (.alt a b) c xs c'
  | given {a : Rule N} {c c' : Cursor} {xs : List Tree} (ha : parse grammar depth a c = some (xs, c')) :
      Fits grammar depth (.opt a) c xs c'
  | missing {a : Rule N} {c : Cursor} (ha : parse grammar depth a c = none) : Fits grammar depth (.opt a) c [] c
  | again {a : Rule N} {c c₁ c₂ : Cursor} {xs ys : List Tree} (ha : parse grammar depth a c = some (xs, c₁))
      (hmany : parse grammar depth (.many a) c₁ = some (ys, c₂)) : Fits grammar depth (.many a) c (xs ++ ys) c₂
  | enough {a : Rule N} {c : Cursor} (ha : parse grammar depth a c = none) : Fits grammar depth (.many a) c [] c
  | ahead {a : Rule N} {c c' : Cursor} {xs : List Tree} (ha : parse grammar depth a c = some (xs, c')) :
      Fits grammar depth (.ahead a) c [] c
  | absent {a : Rule N} {c : Cursor} (ha : parse grammar depth a c = none) : Fits grammar depth (.absent a) c [] c
  | phrase (p : Phrase) {a : Rule N} {c c' : Cursor} {xs : List Tree} (ha : parse grammar depth a c = some (xs, c')) :
      Fits grammar depth (.phrase p a) c [.node p xs] c'
  | ref {n : N} {c c' : Cursor} {xs : List Tree} (h : parse grammar depth (grammar n) c = some (xs, c')) :
      Fits grammar depth (.ref n) c xs c'

theorem fits_of_parse {r : Rule N} {c c' : Cursor} {xs : List Tree}
    (h : parse grammar (depth + 1) r c = some (xs, c')) : Fits grammar depth r c xs c' := by
  cases r with
  | empty =>
    obtain ⟨rfl, rfl⟩ := Prod.mk.inj (Option.some.inj h)
    exact .empty c
  | fail => cases h
  | token p =>
    rw [parse_token] at h
    obtain ⟨⟨t, c₁⟩, ht, e⟩ := Option.map_eq_some_iff.mp h
    obtain ⟨rfl, rfl⟩ := Prod.mk.inj e
    exact .token ht
  | seq a b =>
    rw [parse_seq] at h
    obtain ⟨⟨xs, c₁⟩, ha, h⟩ := Option.bind_eq_some_iff.mp h
    obtain ⟨⟨ys, c₂⟩, hb, h⟩ := Option.map_eq_some_iff.mp h
    obtain ⟨rfl, rfl⟩ := Prod.mk.inj h
    exact .seq ha hb
  | alt a b =>
    rw [parse_alt, Option.or_eq_some_iff] at h
    rcases h with ha | ⟨ha, hb⟩
    · exact .first b ha
    · exact .second ha hb
  | opt a =>
    rw [parse_opt] at h
    rcases ha : parse grammar depth a c with _ | ⟨ys, c₁⟩ <;> rw [ha] at h <;>
      obtain ⟨rfl, rfl⟩ := Prod.mk.inj (Option.some.inj h)
    · exact .missing ha
    · exact .given ha
  | many a =>
    rw [parse_many] at h
    rcases ha : parse grammar depth a c with _ | ⟨ys, c₁⟩ <;> rw [ha] at h
    · obtain ⟨rfl, rfl⟩ := Prod.mk.inj (Option.some.inj h)
      exact .enough ha
    · obtain ⟨⟨zs, c₂⟩, hmany, h⟩ := Option.map_eq_some_iff.mp h
      obtain ⟨rfl, rfl⟩ := Prod.mk.inj h
      exact .again ha hmany
  | ahead a =>
    rw [parse_ahead] at h
    obtain ⟨⟨ys, c₁⟩, ha, h⟩ := Option.map_eq_some_iff.mp h
    obtain ⟨rfl, rfl⟩ := Prod.mk.inj h
    exact .ahead ha
  | absent a =>
    rw [parse_absent] at h
    rcases ha : parse grammar depth a c with _ | x <;> rw [ha] at h
    · obtain ⟨rfl, rfl⟩ := Prod.mk.inj (Option.some.inj h)
      exact .absent ha
    · cases h
  | phrase p a =>
    rw [parse_phrase] at h
    obtain ⟨⟨xs, c₁⟩, ha, h⟩ := Option.map_eq_some_iff.mp h
    obtain ⟨rfl, rfl⟩ := Prod.mk.inj h
    exact .phrase p ha
  | ref n => exact .ref h

theorem read?_of_parse {p : Pattern} {c c' : Cursor} {xs : List Tree}
    (h : parse grammar depth (.token p) c = some (xs, c')) : ∃ t, p.read? c = some (t, c') ∧ xs = [.leaf t] := by
  cases depth with
  | zero => cases h
  | succ depth =>
    cases fits_of_parse h with
    | token ht => exact ⟨_, ht, rfl⟩

theorem seq_of_parse {a b : Rule N} {c c' : Cursor} {xs : List Tree}
    (h : parse grammar depth (.seq a b) c = some (xs, c')) : ∃ d ys zs c₁, depth = d + 1 ∧
      parse grammar d a c = some (ys, c₁) ∧ parse grammar d b c₁ = some (zs, c') ∧ xs = ys ++ zs := by
  cases depth with
  | zero => cases h
  | succ depth =>
    cases fits_of_parse h with
    | seq ha hb => exact ⟨depth, _, _, _, rfl, ha, hb, rfl⟩

theorem rule_of_parse {n : N} {c c' : Cursor} {xs : List Tree} (h : parse grammar depth (.ref n) c = some (xs, c')) :
    ∃ d, depth = d + 1 ∧ parse grammar d (grammar n) c = some (xs, c') := by
  cases depth with
  | zero => cases h
  | succ depth => exact ⟨depth, rfl, h⟩

/-- What a rule reads is a row of tokens. -/
theorem reads_of_parse {r : Rule N} {c c' : Cursor} {xs : List Tree} (h : parse grammar depth r c = some (xs, c')) :
    Reads c (Tree.tokensOf xs) c' := by
  induction depth generalizing r c c' xs with
  | zero => cases h
  | succ depth ih =>
    cases fits_of_parse h with
    | empty => exact .nil c
    | token ht => exact .cons ht (.nil c')
    | seq ha hb => exact Tree.tokensOf_append _ _ ▸ (ih ha).append (ih hb)
    | first b ha => exact ih ha
    | second ha hb => exact ih hb
    | given ha => exact ih ha
    | missing ha => exact .nil c
    | again ha hmany => exact Tree.tokensOf_append _ _ ▸ (ih ha).append (ih hmany)
    | enough ha => exact .nil c
    | ahead ha => exact .nil c
    | absent ha => exact .nil c
    | phrase p ha => simpa [Tree.tokensOf, Tree.tokens] using ih ha
    | ref h => exact ih h

end Rule

end ContractMigration.Solidity
