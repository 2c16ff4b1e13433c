import ContractMigration.Proofs.Solidity.Lexing
import Mathlib.Data.List.TakeWhile

/-! Where quoted texts end. A text in quotes ends at its own quote, so once it has been read it is read in the same way
whatever follows it. -/

namespace ContractMigration.Solidity

namespace StringPlace

attribute [local simp] size?

variable {q c : Char} {e : Bool} {p : StringPlace} {s r : List Char} {n : ℕ}

theorem ne_of_isQuote (hq : isQuote q = true) : q ≠ '\\' ∧ q ≠ '/' := by
  simp only [isQuote, Bool.or_eq_true, beq_iff_eq] at hq
  rcases hq with rfl | rfl <;> decide

theorem size?_text (hc : c ≠ '\\') : StringPlace.text.size? q e (c :: r) = if c = q then some 1
    else if isNul c then none
    else ((if c = '\n' then StringPlace.lineBreak else .text).size? q e r).map (· + 1) := by
  rw [size?]
  · simp [hc]
  all_goals simp [hc]

theorem size?_escape (hline : c ≠ '\n') (hreturn : c = '\r' → r.head? ≠ some '\n')
    (hmark : c = '?' → r.head? ≠ some '\n') : StringPlace.text.size? q e ('\\' :: c :: r) =
      if e && isEscape (c :: r) then (StringPlace.text.size? q e r).map (· + 2) else none := by
  rw [size?]
  · exact hline
  · rintro r' rfl rfl
    exact hreturn rfl rfl
  · rintro r' rfl rfl
    exact hmark rfl rfl

theorem size?_lineBreak (hc : c ≠ '/') : StringPlace.lineBreak.size? q e (c :: r) =
    if c = q then some 1 else if isLayout c then (StringPlace.lineBreak.size? q e r).map (· + 1) else none := by
  rw [size?]
  all_goals simp [hc]

theorem size?_blockComment (hc : c = '*' → r.head? ≠ some '/') : StringPlace.blockComment.size? q e (c :: r) =
    if isNul c then none else (StringPlace.blockComment.size? q e r).map (· + 1) := by
  rw [size?]
  rintro r' rfl rfl
  exact hc rfl rfl

/-- The quote that ends a string is the one that has begun it. -/
theorem mem_take_of_size? (h : p.size? q e s = some n) : q ∈ s.take n := by
  fun_induction StringPlace.size? q e p s generalizing n
  all_goals simp only [Option.map_eq_some_iff, reduceCtorEq, Option.some.injEq] at h
  all_goals grind

theorem pos_of_size? (h : p.size? q e s = some n) : 0 < n := by
  have hmem := mem_take_of_size? h
  exact Nat.pos_of_ne_zero (by rintro rfl; simp at hmem)

theorem head?_take (hn : 0 < n) (x : List Char) (hr : r ≠ []) : (r.take n ++ x).head? = r.head? := by
  obtain ⟨c, r, rfl⟩ := List.exists_cons_of_ne_nil hr
  obtain ⟨n, rfl⟩ := Nat.exists_eq_add_of_lt hn
  simp

/-- Hexadecimal digits and braces end no string. -/
theorem size?_run (hq : isQuote q = true) {u v : List Char} (hu : ∀ c ∈ u, isHexDigit c = true ∨ c = '\x7b' ∨ c = '\x7d')
    (h : StringPlace.text.size? q e (u ++ v) = some n) : ∃ m, StringPlace.text.size? q e v = some m ∧ n = u.length + m := by
  induction u generalizing n with
  | nil => exact ⟨n, h, by simp⟩
  | cons c u ih =>
    rw [List.forall_mem_cons] at hu
    have hbreaks : ∀ d ∈ breaks, ¬(isHexDigit d = true ∨ d = '\x7b' ∨ d = '\x7d') := fun d hd => by
      simpa [and_assoc] using eq_false_of_breaks (p := fun d => isHexDigit d || d == '\x7b' || d == '\x7d') (by decide) hd
    have hcalm : c ≠ '\\' ∧ c ≠ q ∧ c ≠ '\n' := by
      refine ⟨?_, ?_, ?_⟩ <;> rintro rfl
      · exact absurd hu.1 (by decide)
      · exact hbreaks c (mem_breaks_of_isQuote hq) hu.1
      · exact hbreaks _ (by decide) hu.1
    rw [List.cons_append, size?_text hcalm.1, if_neg hcalm.2.1, if_neg hcalm.2.2] at h
    split_ifs at h
    obtain ⟨m, hm, rfl⟩ := Option.map_eq_some_iff.mp h
    obtain ⟨k, hk, rfl⟩ := ih hu.2 hm
    exact ⟨k, hk, by rw [List.length_cons]; omega⟩

/-- An escape is read as such whatever follows the string. -/
theorem isEscape_take (hq : isQuote q = true) (h : StringPlace.text.size? q e r = some n) (he : isEscape (c :: r) = true)
    (x : List Char) : isEscape (c :: (r.take n ++ x)) = true := by
  unfold isEscape at he
  split at he
  · next a b r heq =>
    obtain ⟨rfl, rfl⟩ := List.cons.inj heq
    rw [Bool.and_eq_true] at he
    obtain ⟨m, -, rfl⟩ := size?_run hq (u := [a, b]) (v := r) (by simp [he]) h
    simp [isEscape, he, Nat.add_comm 2 m]
  · next a r heq =>
    obtain ⟨rfl, rfl⟩ := List.cons.inj heq
    rw [Bool.and_eq_true, beq_iff_eq] at he
    obtain ⟨v, hv⟩ := List.head?_eq_some_iff.mp he.2
    have hr : r = r.takeWhile isHexDigit ++ '\x7d' :: v := by rw [← hv, List.takeWhile_append_dropWhile]
    have hrun : ∀ c ∈ r.takeWhile isHexDigit, isHexDigit c = true := fun c hc => List.mem_takeWhile_imp hc
    generalize r.takeWhile isHexDigit = u at hr hrun
    subst hr
    obtain ⟨m, -, rfl⟩ := size?_run hq (u := '\x7b' :: a :: (u ++ ['\x7d'])) (v := v)
      (by simpa [he.1, or_imp, forall_and] using fun c hc => .inl (hrun c hc)) (by simpa using h)
    have htake : ('\x7b' :: a :: (u ++ '\x7d' :: v)).take (('\x7b' :: a :: (u ++ ['\x7d'])).length + m) =
        '\x7b' :: a :: (u ++ '\x7d' :: v.take m) := by
      have hfront : '\x7b' :: a :: (u ++ '\x7d' :: v) = '\x7b' :: a :: (u ++ ['\x7d']) ++ v := by simp
      rw [hfront, List.take_length_add_append]
      simp
    rw [htake]
    simp [isEscape, he.1, List.dropWhile_append_of_pos hrun, show isHexDigit '\x7d' = false by decide]
  · next a b c d r _ heq =>
    obtain ⟨rfl, rfl⟩ := List.cons.inj heq
    simp only [List.all_cons, List.all_nil, Bool.and_true, Bool.and_eq_true] at he
    obtain ⟨m, -, rfl⟩ := size?_run hq (u := [a, b, c, d]) (v := r) (by simp [he]) h
    simp [isEscape, he, Nat.add_comm 4 m]
  · next d r' _ _ heq =>
    obtain ⟨rfl, rfl⟩ := List.cons.inj heq
    simp only [Bool.and_eq_true, bne_iff_ne] at he
    simp [isEscape, he]
  · cases he

theorem head?_eq_of_take {x : List Char} {m : ℕ} (h : p.size? q e r = some m) : (r.take m ++ x).head? = r.head? :=
  head?_take (pos_of_size? h) x (by rintro rfl; cases p <;> cases h)

theorem size?_take (hq : isQuote q = true) (h : p.size? q e s = some n) (x : List Char) :
    p.size? q e (s.take n ++ x) = some n := by
  obtain ⟨hback, hslash⟩ := ne_of_isQuote hq
  fun_induction StringPlace.size? q e p s generalizing n with
  | case1 r ih | case2 r ih | case10 r ih | case11 r ih | case17 r ih =>
    -- a line that goes on behind a backslash, or where a comment begins or ends
    obtain ⟨m, hm, rfl⟩ := Option.map_eq_some_iff.mp h
    simp [ih hm]
  | case3 r he ih =>
    obtain ⟨m, hm, rfl⟩ := Option.map_eq_some_iff.mp h
    subst he
    simp [ih hm]
  | case5 c r hline hreturn hmark he ih =>
    -- an escape: it is one as well in front of something else, as it is read up to the quote at most
    obtain ⟨m, hm, rfl⟩ := Option.map_eq_some_iff.mp h
    have hesc : (e && isEscape (c :: (r.take m ++ x))) = true := by
      rw [Bool.and_eq_true] at he ⊢
      exact ⟨he.1, isEscape_take hq hm he.2 x⟩
    rw [List.take_succ_cons, List.take_succ_cons, List.cons_append, List.cons_append, size?_escape hline, if_pos hesc,
      ih hm]
    · rfl
    · rw [head?_eq_of_take hm]
      exact fun hc hr => (List.head?_eq_some_iff.mp hr).elim fun r' hr' => hreturn r' hc hr'
    · rw [head?_eq_of_take hm]
      exact fun hc hr => (List.head?_eq_some_iff.mp hr).elim fun r' hr' => hmark r' hc hr'
  | case7 r =>
    obtain rfl : 1 = n := Option.some.inj h
    rw [List.take_succ_cons, List.cons_append, size?_text hback, if_pos rfl]
  | case9 c r _ _ _ _ hc hother ih =>
    obtain ⟨m, hm, rfl⟩ := Option.map_eq_some_iff.mp h
    rw [Bool.or_eq_true, decide_eq_true_iff, not_or] at hother
    rw [List.take_succ_cons, List.cons_append, size?_text hother.1, if_neg hc, if_neg hother.2, ih hm]
    rfl
  | case12 r =>
    obtain rfl : 1 = n := Option.some.inj h
    rw [List.take_succ_cons, List.cons_append, size?_lineBreak hslash, if_pos rfl]
  | case13 c r _ _ hc hlayout ih =>
    obtain ⟨m, hm, rfl⟩ := Option.map_eq_some_iff.mp h
    rw [List.take_succ_cons, List.cons_append, size?_lineBreak (not_slash_of_isLayout hlayout), if_neg hc, if_pos hlayout,
      ih hm]
    rfl
  | case16 c r hc ih =>
    obtain ⟨m, hm, rfl⟩ := Option.map_eq_some_iff.mp h
    rw [List.take_succ_cons, List.cons_append, size?, if_neg hc, ih hm]
    rfl
  | case19 c r hstar hc ih =>
    obtain ⟨m, hm, rfl⟩ := Option.map_eq_some_iff.mp h
    rw [List.take_succ_cons, List.cons_append, size?_blockComment, if_neg hc, ih hm]
    · rfl
    · rw [head?_eq_of_take hm]
      exact fun hc hr => (List.head?_eq_some_iff.mp hr).elim fun r' hr' => hstar r' hc hr'
  | _ => cases h

/-- What is a string without escapes is one with them. -/
theorem size?_escapes (h : p.size? q false s = some n) : p.size? q true s = some n := by
  fun_induction StringPlace.size? q false p s generalizing n with
  | case1 r ih | case2 r ih | case10 r ih | case11 r ih | case17 r ih =>
    obtain ⟨m, hm, rfl⟩ := Option.map_eq_some_iff.mp h
    rw [size?, ih hm]
    rfl
  | case7 r hne hne' hmark hesc =>
    rw [size?, if_pos rfl]
    · exact h
    all_goals assumption
  | case9 c r _ _ _ _ hc hother ih =>
    obtain ⟨m, hm, rfl⟩ := Option.map_eq_some_iff.mp h
    rw [Bool.or_eq_true, decide_eq_true_iff, not_or] at hother
    rw [size?_text hother.1, if_neg hc, if_neg hother.2, ih hm]
    rfl
  | case12 r hline hblock =>
    rw [size?, if_pos rfl]
    · exact h
    all_goals assumption
  | case13 c r _ _ hc hlayout ih =>
    obtain ⟨m, hm, rfl⟩ := Option.map_eq_some_iff.mp h
    rw [size?_lineBreak (not_slash_of_isLayout hlayout), if_neg hc, if_pos hlayout, ih hm]
    rfl
  | case16 c r hc ih =>
    obtain ⟨m, hm, rfl⟩ := Option.map_eq_some_iff.mp h
    rw [size?, if_neg hc, ih hm]
    rfl
  | case19 c r hstar hc ih =>
    obtain ⟨m, hm, rfl⟩ := Option.map_eq_some_iff.mp h
    rw [size?, if_neg hc, ih hm]
    · rfl
    · exact hstar
  | case3 r he => cases he
  | case5 c r _ _ _ he => cases he
  | _ => cases h

end StringPlace

/-! ### Digits in quotes -/

/-- Whether a character can stand between the quotes of a hexadecimal string, outside of comments. -/
def isHexish (c : Char) : Bool := isHexDigit c || isLayout c || c == '_'

theorem calm_of_isHexish {c : Char} (h : isHexish c = true) :
    c ≠ '/' ∧ c ≠ '\\' ∧ isQuote c = false ∧ isNul c = false := by
  refine ⟨?_, ?_, ?_, ?_⟩
  · rintro rfl
    exact absurd h (by decide)
  · rintro rfl
    exact absurd h (by decide)
  · rw [isQuote, Bool.or_eq_false_iff, beq_eq_false_iff_ne, beq_eq_false_iff_ne]
    constructor <;> rintro rfl <;> exact absurd h (by decide)
  · rw [isNul, beq_eq_false_iff_ne]
    rintro rfl
    exact absurd h (by decide)

theorem isHexish_of_isQuote {c : Char} (h : isQuote c = true) : isHexish c = false := by
  rw [Bool.eq_false_iff]
  intro hc
  exact absurd h (by simp [(calm_of_isHexish hc).2.2.1])

/-- Behind hexadecimal digits and layout, a quote ends a string or does not, whatever follows. -/
theorem StringPlace.size?_hexish {q : Char} (hq : isQuote q = true) (e : Bool) {run : List Char}
    (hrun : ∀ c ∈ run, isHexish c = true) {p : StringPlace} (hp : p = .text ∨ p = .lineBreak) :
    (∀ y, p.size? q e (run ++ q :: y) = none) ∨ ∀ y, p.size? q e (run ++ q :: y) = some (run.length + 1) := by
  induction run generalizing p with
  | nil =>
    refine .inr fun y => ?_
    obtain ⟨hback, hslash⟩ := ne_of_isQuote hq
    rcases hp with rfl | rfl
    · rw [List.nil_append, size?_text hback, if_pos rfl]
      rfl
    · rw [List.nil_append, size?_lineBreak hslash, if_pos rfl]
      rfl
  | cons c run ih =>
    rw [List.forall_mem_cons] at hrun
    obtain ⟨hslash, hback, hquote, hnul⟩ := calm_of_isHexish hrun.1
    have hcq : c ≠ q := by
      rintro rfl
      exact absurd hq (by simp [hquote])
    rcases hp with rfl | rfl
    · have hstep : ∀ y, StringPlace.text.size? q e (c :: run ++ q :: y) =
          ((if c = '\n' then StringPlace.lineBreak else .text).size? q e (run ++ q :: y)).map (· + 1) := fun y => by
        rw [List.cons_append, size?_text hback, if_neg hcq, if_neg (by simp [hnul])]
      refine (ih hrun.2 (p := if c = '\n' then .lineBreak else .text) ?_).imp (fun h y => ?_) fun h y => ?_
      · split_ifs
        · exact .inr rfl
        · exact .inl rfl
      · rw [hstep, h]
        rfl
      · rw [hstep, h]
        rfl
    · have hstep : ∀ y, StringPlace.lineBreak.size? q e (c :: run ++ q :: y) =
          if isLayout c then (StringPlace.lineBreak.size? q e (run ++ q :: y)).map (· + 1) else none := fun y => by
        rw [List.cons_append, size?_lineBreak hslash, if_neg hcq]
      by_cases hc : isLayout c = true
      · refine (ih hrun.2 (p := .lineBreak) (.inr rfl)).imp (fun h y => ?_) fun h y => ?_
        · rw [hstep, if_pos hc, h]
          rfl
        · rw [hstep, if_pos hc, h]
          rfl
      · exact .inl fun y => by rw [hstep, if_neg hc]

attribute [local simp] HexPlace.size?

theorem HexPlace.size?_pair {q a b : Char} {r : List Char} (p : HexPlace) (ha : a ≠ '/') :
    p.size? q .blank (a :: b :: r) =
      if isHexDigit a && isHexDigit b then (HexPlace.further.size? q .blank r).map (· + 2)
      else if isLayout a then (p.size? q .blank (b :: r)).map (· + 1)
      else if a = '_' && p = .further then (HexPlace.pair.size? q .blank (b :: r)).map (· + 1)
      else if a = q && p ≠ .pair then some 1
      else none := by
  rw [size?]
  all_goals simp [ha]

/-- Behind hexadecimal digits and layout, a character that is no slash ends a hexadecimal string or does not, whatever
follows. -/
theorem HexPlace.size?_hexish {q d : Char} (hd : isHexish d = false) (hslash : d ≠ '/') (hq : isQuote q = true)
    {run : List Char} (hrun : ∀ c ∈ run, isHexish c = true) (p : HexPlace) :
    (∀ y, p.size? q .blank (run ++ d :: y) = none) ∨
      d = q ∧ ∀ y, p.size? q .blank (run ++ d :: y) = some (run.length + 1) := by
  simp only [isHexish, Bool.or_eq_false_iff, beq_eq_false_iff_ne] at hd
  induction hn : run.length using Nat.strong_induction_on generalizing run p with
  | _ n ih =>
    subst hn
    -- a shorter run with a few more characters in front
    have step : ∀ {run' : List Char} (p' : HexPlace) (k : ℕ), run'.length + k = run.length → 0 < k →
        (∀ c ∈ run', isHexish c = true) →
        (∀ y, p.size? q .blank (run ++ d :: y) = (p'.size? q .blank (run' ++ d :: y)).map (· + k)) →
        (∀ y, p.size? q .blank (run ++ d :: y) = none) ∨
          d = q ∧ ∀ y, p.size? q .blank (run ++ d :: y) = some (run.length + 1) := by
      intro run' p' k hk hpos hrun' hsize
      rcases ih run'.length (by omega) hrun' p' rfl with hnone | ⟨rfl, hsome⟩
      · exact .inl fun y => by rw [hsize, hnone, Option.map_none]
      · exact .inr ⟨rfl, fun y => by rw [hsize, hsome, Option.map_some]; congr 1; omega⟩
    cases run with
    | nil =>
      have hend : ∀ y, p.size? q .blank (d :: y) = if d = q && p ≠ .pair then some 1 else none := by
        intro y
        cases y with
        | nil => rw [size?]
        | cons b y => rw [size?_pair p hslash]; simp [hd]
      by_cases h : d = q ∧ p ≠ .pair
      · exact .inr ⟨h.1, fun y => (hend y).trans (if_pos (by simpa using h))⟩
      · exact .inl fun y => (hend y).trans (if_neg (by simpa using h))
    | cons c run =>
      rw [List.forall_mem_cons] at hrun
      obtain ⟨hcslash, -, hcquote, -⟩ := calm_of_isHexish hrun.1
      have hcq : c ≠ q := by
        rintro rfl
        exact absurd hq (by simp [hcquote])
      by_cases hdigits : ∃ e run', run = e :: run' ∧ (isHexDigit c && isHexDigit e) = true
      · obtain ⟨e, run, rfl, hce⟩ := hdigits
        rw [List.forall_mem_cons] at hrun
        exact step .further 2 rfl (by omega) hrun.2.2 fun y => by
          rw [List.cons_append, List.cons_append, size?_pair p hcslash, if_pos hce]
      · have hsize : ∀ y, p.size? q .blank (c :: run ++ d :: y) =
            if isLayout c then (p.size? q .blank (run ++ d :: y)).map (· + 1)
            else if c = '_' && p = .further then (HexPlace.pair.size? q .blank (run ++ d :: y)).map (· + 1)
            else none := by
          intro y
          cases run with
          | nil => simp [size?_pair p hcslash, hd, hcq]
          | cons e run =>
            have hce : ¬(isHexDigit c && isHexDigit e) = true := fun h => hdigits ⟨e, run, rfl, h⟩
            rw [List.cons_append, List.cons_append, size?_pair p hcslash, if_neg hce]
            simp [hcq]
        by_cases hlayout : isLayout c = true
        · exact step p 1 rfl (by omega) hrun.2 fun y => by rw [hsize, if_pos hlayout]
        · by_cases hgap : (c = '_' && p = .further) = true
          · exact step .pair 1 rfl (by omega) hrun.2 fun y => by rw [hsize, if_neg hlayout, if_pos hgap]
          · exact .inl fun y => by rw [hsize, if_neg hlayout, if_neg hgap]

/-! ### Literals -/

/-- A piece of text is read as a whole or not at all, whatever follows it. -/
def Settled (size? : List Char → Option ℕ) (l : List Char) : Prop :=
  (∀ x, size? (l ++ x) = none) ∨ ∀ x, size? (l ++ x) = some l.length

/-- No comment begins right behind the digits in quotes. -/
def hexPlain (l : List Char) : Bool := (l.tail.dropWhile isHexish).head? != some '/'

/-- The mark of assembly blocks. -/
def assemblyMark : String := "\"evmasm\""

/-- A text in quotes that is read as a whole or not at all, whatever follows it. -/
structure IsLiteral (l : List Char) : Prop where
  opens : ∃ q r, l = q :: r ∧ isQuote q = true
  string (escapes : Bool) : Settled (stringSize? escapes) l
  mark : Settled (symbolSize? assemblyMark) l
  hex (h : hexPlain l = true) : Settled hexStringSize? l

theorem stringSize?_cons {q : Char} (hq : isQuote q = true) (e : Bool) (r : List Char) :
    stringSize? e (q :: r) = (StringPlace.text.size? q e r).map (· + 1) := by
  rw [stringSize?, if_pos hq]

theorem stringSize?_take {e : Bool} {s : List Char} {n : ℕ} (h : stringSize? e s = some n) (x : List Char) :
    stringSize? e (s.take n ++ x) = some n := by
  obtain ⟨q, r, m, rfl, hq, hm, rfl⟩ := stringSize?_eq_some h
  rw [List.take_succ_cons, List.cons_append, stringSize?_cons hq, StringPlace.size?_take hq hm]
  rfl

theorem stringSize?_escapes {s : List Char} {n : ℕ} (h : stringSize? false s = some n) : stringSize? true s = some n := by
  obtain ⟨q, r, m, rfl, hq, hm, rfl⟩ := stringSize?_eq_some h
  rw [stringSize?_cons hq, StringPlace.size?_escapes hm]
  rfl

theorem stringSize?_append {e : Bool} {l : List Char} (h : stringSize? e l = some l.length) (x : List Char) :
    stringSize? e (l ++ x) = some l.length := by
  simpa using stringSize?_take h x

theorem settled_string {l : List Char} (h : stringSize? true l = some l.length) (e : Bool) : Settled (stringSize? e) l := by
  cases e with
  | true => exact .inr (stringSize?_append h)
  | false =>
    by_cases hnone : ∀ x, stringSize? false (l ++ x) = none
    · exact .inl hnone
    · -- what is read without escapes is read with them, so it is the same
      rw [not_forall] at hnone
      obtain ⟨x, hx⟩ := hnone
      obtain ⟨n, hn⟩ := Option.ne_none_iff_exists'.mp hx
      obtain rfl : l.length = n := Option.some.inj ((stringSize?_append h x).symm.trans (stringSize?_escapes hn))
      exact .inr fun y => by simpa using stringSize?_take hn y

theorem stringSize?_assemblyMark (x : List Char) : stringSize? true (assemblyMark.toList ++ x) = some 8 :=
  stringSize?_append (by decide) x

/-- What is a string or none, whatever follows, is the mark of assembly blocks or is not. -/
theorem settled_mark {l : List Char} (h : Settled (stringSize? true) l) : Settled (symbolSize? assemblyMark) l := by
  by_cases hnone : ∀ x, symbolSize? assemblyMark (l ++ x) = none
  · exact .inl hnone
  · rw [not_forall] at hnone
    obtain ⟨x, hx⟩ := hnone
    obtain ⟨n, hn⟩ := Option.ne_none_iff_exists'.mp hx
    obtain ⟨⟨z, hz⟩, -⟩ := Pattern.symbolSize?_eq_some hn
    have hsize := stringSize?_assemblyMark z
    rw [hz] at hsize
    rcases h with h | h
    · exact absurd ((h x).symm.trans hsize) nofun
    · have hlen : l.length = 8 := Option.some.inj ((h x).symm.trans hsize)
      have hl : assemblyMark.toList = l := (List.append_inj hz (by rw [hlen]; rfl)).1
      refine .inr fun y => ?_
      rw [symbolSize?, (Text.stripStart?_eq_some_iff.mpr (by rw [← hl]) : Text.stripStart? _ (l ++ y) = some y), hlen]
      rfl

theorem hexStringSize?_cons {q : Char} (hq : isQuote q = true) (r : List Char) :
    hexStringSize? (q :: r) = (HexPlace.first.size? q .blank r).map (· + 1) := by
  rw [hexStringSize?, if_pos hq]

/-- What stands between a quote and the first character that is no digit decides on a hexadecimal string. -/
theorem exists_run {q : Char} {r : List Char} (hq : isQuote q = true) (hmem : q ∈ r) (hplain : hexPlain (q :: r) = true) :
    ∃ run d rest, r = run ++ d :: rest ∧ (∀ c ∈ run, isHexish c = true) ∧
      ((∀ x, hexStringSize? (q :: r ++ x) = none) ∨
        d = q ∧ ∀ x, hexStringSize? (q :: r ++ x) = some (run.length + 2)) := by
  have hsplit : r.takeWhile isHexish ++ r.dropWhile isHexish = r := List.takeWhile_append_dropWhile
  have hrun : ∀ c ∈ r.takeWhile isHexish, isHexish c = true := fun c hc => List.mem_takeWhile_imp hc
  cases hrest : r.dropWhile isHexish with
  | nil =>
    rw [hrest, List.append_nil] at hsplit
    rw [hsplit] at hrun
    exact absurd (hrun q hmem) (by simp [isHexish_of_isQuote hq])
  | cons d rest =>
    have hd : isHexish d = false := by
      simpa [hrest] using List.head_dropWhile_not (l := r) isHexish (by simp [hrest])
    have hslash : d ≠ '/' := by simpa [hexPlain, hrest] using hplain
    rw [hrest] at hsplit
    refine ⟨r.takeWhile isHexish, d, rest, hsplit.symm, hrun, ?_⟩
    generalize r.takeWhile isHexish = run at hsplit hrun
    subst hsplit
    have hsize : ∀ x, hexStringSize? (q :: (run ++ d :: rest) ++ x) =
        (HexPlace.first.size? q .blank (run ++ d :: (rest ++ x))).map (· + 1) := fun x => by
      rw [List.cons_append, hexStringSize?_cons hq, List.append_assoc, List.cons_append]
    refine (HexPlace.size?_hexish hd hslash hq hrun .first).imp (fun h x => ?_) fun h => ⟨h.1, fun x => ?_⟩
    · rw [hsize, h]
      rfl
    · rw [hsize, h.2]
      rfl

theorem HexPlace.mem_take_of_size? {q : Char} {p : HexPlace} {g : Gap} {s : List Char} {n : ℕ}
    (h : p.size? q g s = some n) : q ∈ s.take n := by
  fun_induction HexPlace.size? q p g s generalizing n
  all_goals simp only [Option.map_eq_some_iff, reduceCtorEq, Option.some.injEq] at h
  all_goals grind

/-- A string is a literal. -/
theorem isLiteral_of_string {l : List Char} (h : stringSize? true l = some l.length) : IsLiteral l where
  opens := by
    obtain ⟨q, r, -, hl, hq, -, -⟩ := stringSize?_eq_some h
    exact ⟨q, r, hl, hq⟩
  string := settled_string h
  mark := settled_mark (settled_string h true)
  hex hplain := by
    obtain ⟨q, r, m, rfl, hq, hm, hlen⟩ := stringSize?_eq_some h
    obtain rfl : r.length = m := by simpa using hlen
    have hmem : q ∈ r := by simpa using StringPlace.mem_take_of_size? hm
    obtain ⟨run, d, rest, rfl, hrun, hnone | ⟨rfl, hsome⟩⟩ := exists_run hq hmem hplain
    · exact .inl hnone
    · -- both readings end at the first quote
      rcases StringPlace.size?_hexish hq true hrun (.inl rfl) with hno | hyes
      · exact absurd ((hno rest).symm.trans hm) nofun
      · have hend := Option.some.inj ((hyes rest).symm.trans hm)
        exact .inr fun x => by rw [hsome, List.length_cons, ← hend]

/-- Digits in quotes without comments are a literal. -/
theorem isLiteral_of_hex {l : List Char} (h : hexStringSize? l = some l.length) (hplain : hexPlain l = true) :
    IsLiteral l := by
  obtain ⟨q, r, m, rfl, hq, hm, hlen⟩ := hexStringSize?_eq_some h
  obtain rfl : r.length = m := by simpa using hlen
  have hmem : q ∈ r := by simpa using HexPlace.mem_take_of_size? hm
  obtain ⟨run, d, rest, rfl, hrun, hnone | ⟨rfl, hsome⟩⟩ := exists_run hq hmem hplain
  · have hnone := hnone []
    rw [List.append_nil, h] at hnone
    cases hnone
  · have hend := hsome []
    rw [List.append_nil, h, Option.some.injEq] at hend
    obtain rfl : rest = [] := by simpa using hend
    have hstring : ∀ e, Settled (stringSize? e) (d :: (run ++ [d])) := fun e => by
      have hsize : ∀ x, stringSize? e (d :: (run ++ [d]) ++ x) = (StringPlace.text.size? d e (run ++ d :: x)).map (· + 1) :=
        fun x => by rw [List.cons_append, stringSize?_cons hq, List.append_assoc]; rfl
      refine (StringPlace.size?_hexish hq e hrun (.inl rfl)).imp (fun h x => ?_) fun h x => ?_
      · rw [hsize, h]
        rfl
      · rw [hsize, h]
        simp
    exact ⟨⟨d, _, rfl, hq⟩, hstring, settled_mark (hstring true), fun _ => .inr fun x => by rw [hsome, hend]⟩

/-- Whether a token begins with a quote. -/
def opensQuote (t : Token) : Bool := t.text.toList.head?.any isQuote

end ContractMigration.Solidity
