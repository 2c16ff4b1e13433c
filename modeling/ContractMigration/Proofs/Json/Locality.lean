import ContractMigration.Proofs.Json.Scanning

/-! What is scanned at the front of a text does not depend on what follows it: a scalar that is cut off in front of a
rest is cut off in front of any longer rest. Only a number may go on where the text ends. -/

namespace ContractMigration.Json

/-! ### Strings and words -/

theorem hexDigit?_newline {c : Char} {n : Nat} (h : hexDigit? c = some n) : c ≠ '\n' := by
  rintro rfl
  cases h

/-- The quote that ends a string is on the line of the string. -/
theorem scanString_extent {s rest : List Char} {ps : List Piece} (h : scanString s = (ps, .ok rest)) :
    ∃ b, s = b ++ '"' :: rest ∧ '\n' ∉ b ∧ ∀ q, scanString (b ++ '"' :: q) = (ps, .ok q) := by
  fun_induction scanString s generalizing ps rest with
  | case1 => cases h
  | case2 r =>
    cases h
    exact ⟨[], rfl, by simp, fun q => by simp [scanString]⟩
  | case3 => cases h
  | case4 a b c d r wa wb wc wd hd hc hb ha ps' o hr ih =>
    cases h
    obtain ⟨t, rfl, hline, hscan⟩ := ih hr
    refine ⟨'\\' :: 'u' :: a :: b :: c :: d :: t, rfl, ?_, fun q => ?_⟩
    · simp [hline, (hexDigit?_newline ha).symm, (hexDigit?_newline hb).symm, (hexDigit?_newline hc).symm,
        (hexDigit?_newline hd).symm]
    · simp only [List.cons_append, scanString_unit ha hb hc hd, hscan]
  | case5 => cases h
  | case6 => cases h
  | case7 e r hu' hu c hv ps' o hr ih =>
    cases h
    obtain ⟨t, rfl, hline, hscan⟩ := ih hr
    have he : '\n' ≠ e := by
      rintro rfl
      cases hv
    exact ⟨'\\' :: e :: t, rfl, by simp [hline, he], fun q => by
      simp only [List.cons_append, scanString_letter hu hv, hscan]⟩
  | case8 => cases h
  | case9 => cases h
  | case10 c r hquote h1 h2 h3 h4 hlow ps' o hr ih =>
    cases h
    obtain ⟨t, rfl, hline, hscan⟩ := ih hr
    have hslash : c ≠ '\\' := by
      rintro rfl
      cases t with
      | nil => exact h4 '"' rest rfl rfl
      | cons e t => exact h4 e (t ++ '"' :: rest) rfl rfl
    have hc : '\n' ≠ c := by
      rintro rfl
      exact hlow (by decide)
    exact ⟨c :: t, rfl, by simp [hline, hc], fun q => by
      simp only [List.cons_append, scanString_plain hquote hslash hlow, hscan]⟩

/-- What follows the quote that ends a string has no part in it. -/
theorem stringLeaf_extent {s rest : List Char} {l : Leaf} (h : stringLeaf s = (l, some rest)) :
    ∃ b, s = b ++ '"' :: rest ∧ '\n' ∉ b ∧ ∀ q, stringLeaf (b ++ '"' :: q) = (l, some q) := by
  unfold stringLeaf at h
  split at h
  · next ps r hs =>
    cases h
    obtain ⟨b, rfl, hline, hscan⟩ := scanString_extent hs
    exact ⟨b, rfl, hline, fun q => by rw [stringLeaf, hscan]⟩
  · cases h

theorem stringLeaf_append {s rest : List Char} {l : Leaf} (h : stringLeaf s = (l, some rest)) (q : List Char) :
    rest.length < s.length ∧ stringLeaf (s ++ q) = (l, some (rest ++ q)) := by
  obtain ⟨b, rfl, -, hleaf⟩ := stringLeaf_extent h
  refine ⟨?_, ?_⟩
  · simp only [List.length_append, List.length_cons]
    omega
  · rw [List.append_assoc, List.cons_append]
    exact hleaf (rest ++ q)

/-- A word is cut off where its letters stand. -/
theorem wordLeaf_eq_some_iff {start : Start} {letters s rest : List Char} {value : Scalar} {l : Leaf} :
    wordLeaf start letters value s = (l, some rest) ↔ s = letters ++ rest ∧ l = ⟨start, .ok value, none⟩ := by
  induction letters generalizing s with
  | nil => simp [wordLeaf, eq_comm, and_comm]
  | cons a letters ih =>
    cases s with
    | nil => simp [wordLeaf]
    | cons c s =>
      rw [wordLeaf, List.cons_append]
      split
      · next hc => rw [ih, hc, List.cons_inj_right]
      · next hc =>
        refine ⟨fun h => ?_, fun h => absurd (List.cons.inj h.1).1.symm hc⟩
        cases h

theorem wordLeaf_append {start : Start} {letters s rest : List Char} {value : Scalar} {l : Leaf}
    (h : wordLeaf start letters value s = (l, some rest)) (q : List Char) :
    rest.length ≤ s.length ∧ wordLeaf start letters value (s ++ q) = (l, some (rest ++ q)) := by
  obtain ⟨rfl, rfl⟩ := wordLeaf_eq_some_iff.1 h
  exact ⟨by simp, wordLeaf_eq_some_iff.2 ⟨List.append_assoc .., rfl⟩⟩

/-! ### Numbers -/

theorem dropWhile_append_of_ne_nil {p : Char → Bool} {s : List Char} (h : s.dropWhile p ≠ []) (q : List Char) :
    (s ++ q).takeWhile p = s.takeWhile p ∧ (s ++ q).dropWhile p = s.dropWhile p ++ q := by
  induction s with
  | nil => exact absurd rfl h
  | cons c s ih =>
    by_cases hc : p c = true
    · rw [List.dropWhile_cons_of_pos hc] at h
      simp [hc, ih h]
    · simp [hc]

/-- Digits of an exponent, given its sign. -/
def exponentDigits (finish : Option (Bool × List Char) → Except Error Scalar) (minus : Bool) (r : List Char) :
    Leaf × Option (List Char) :=
  if (r.takeWhile isDigit).isEmpty then brokenNumber r
  else (⟨.plain, finish (some (minus, r.takeWhile isDigit)), none⟩, some (r.dropWhile isDigit))

/-- Whether an exponent is negative, and what follows its sign. -/
def exponentSign (s : List Char) : Bool × List Char :=
  if s.head? = some '+' then (false, s.tail) else if s.head? = some '-' then (true, s.tail) else (false, s)

theorem exponentSign_append {s : List Char} (hs : s ≠ []) (q : List Char) :
    exponentSign (s ++ q) = ((exponentSign s).1, (exponentSign s).2 ++ q) := by
  unfold exponentSign
  rw [List.head?_append_of_ne_nil _ hs, List.tail_append_of_ne_nil hs]
  split_ifs <;> rfl

theorem length_exponentSign_le (s : List Char) : (exponentSign s).2.length ≤ s.length := by
  unfold exponentSign
  split_ifs <;> simp

theorem numberExponent_cons (finish : Option (Bool × List Char) → Except Error Scalar) (c : Char) (r : List Char) :
    numberExponent finish (c :: r) =
      if c = 'e' ∨ c = 'E' then exponentDigits finish (exponentSign r).1 (exponentSign r).2
      else (⟨.plain, finish none, none⟩, some (c :: r)) := by
  unfold numberExponent exponentSign exponentDigits
  dsimp only
  split
  · split
    · simp
    · simp
    · next hplus hminus =>
      have hp : r.head? ≠ some '+' := fun h => hplus r.tail (List.cons_head?_tail h).symm
      have hm : r.head? ≠ some '-' := fun h => hminus r.tail (List.cons_head?_tail h).symm
      rw [if_neg hp, if_neg hm]
  · rfl

theorem exponentDigits_append {finish : Option (Bool × List Char) → Except Error Scalar} {minus : Bool}
    {s rest : List Char} {l : Leaf} (h : exponentDigits finish minus s = (l, some rest)) (hrest : rest ≠ [])
    (q : List Char) : rest.length ≤ s.length ∧ exponentDigits finish minus (s ++ q) = (l, some (rest ++ q)) := by
  unfold exponentDigits at h
  split at h
  · cases h
  · next hne =>
    cases h
    obtain ⟨htake, hdrop⟩ := dropWhile_append_of_ne_nil hrest q
    exact ⟨(List.dropWhile_suffix isDigit).length_le, by rw [exponentDigits, htake, hdrop, if_neg hne]⟩

theorem numberExponent_append {finish : Option (Bool × List Char) → Except Error Scalar} {s rest : List Char} {l : Leaf}
    (h : numberExponent finish s = (l, some rest)) (hrest : rest ≠ []) (q : List Char) :
    rest.length ≤ s.length ∧ numberExponent finish (s ++ q) = (l, some (rest ++ q)) := by
  cases s with
  | nil =>
    cases h
    exact absurd rfl hrest
  | cons c r =>
    rw [numberExponent_cons] at h
    rw [List.cons_append, numberExponent_cons]
    split at h
    · next hc =>
      have hr : r ≠ [] := by
        rintro rfl
        cases h
      have hlen := length_exponentSign_le r
      obtain ⟨hle, hnumber⟩ := exponentDigits_append h hrest q
      rw [if_pos hc, exponentSign_append hr]
      exact ⟨by simp only [List.length_cons]; omega, hnumber⟩
    · next hc =>
      cases h
      rw [if_neg hc]
      exact ⟨Nat.le_refl _, rfl⟩

/-- What follows the digits in front of the point. -/
def numberFraction (negative : Bool) (whole s : List Char) : Leaf × Option (List Char) :=
  match s with
  | '.' :: r =>
    if (r.takeWhile isDigit).isEmpty then brokenNumber r
    else numberExponent (numberValue negative whole (some (r.takeWhile isDigit))) (r.dropWhile isDigit)
  | r => numberExponent (numberValue negative whole none) r

/-- A number behind its sign. -/
def unsignedNumber (negative : Bool) (s : List Char) : Leaf × Option (List Char) :=
  match s.takeWhile isDigit with
  | [] => brokenNumber s
  | '0' :: _ :: _ => (⟨.plain, .error .invalidNumber, some .invalidNumber⟩, none)
  | _ => numberFraction negative (s.takeWhile isDigit) (s.dropWhile isDigit)

theorem numberLeaf_eq (s : List Char) : numberLeaf s =
    if s.head? == some '-' then unsignedNumber true (s.drop 1) else unsignedNumber false s := by
  unfold numberLeaf unsignedNumber
  split
  · next h =>
    simp only [h, if_true]
    rfl
  · next h =>
    simp only [h, if_false, Bool.false_eq_true]
    rfl

theorem numberFraction_append {negative : Bool} {whole s rest : List Char} {l : Leaf}
    (h : numberFraction negative whole s = (l, some rest)) (hrest : rest ≠ []) (q : List Char) :
    rest.length ≤ s.length ∧ numberFraction negative whole (s ++ q) = (l, some (rest ++ q)) := by
  unfold numberFraction at h
  split at h
  · next r =>
    split at h
    · cases h
    · next hne =>
      have hdrop : r.dropWhile isDigit ≠ [] := by
        intro he
        rw [he] at h
        cases h
        exact hrest rfl
      obtain ⟨htake', hdrop'⟩ := dropWhile_append_of_ne_nil hdrop q
      obtain ⟨hle, hnumber⟩ := numberExponent_append h hrest q
      have := (List.dropWhile_suffix (l := r) isDigit).length_le
      refine ⟨by simp only [List.length_cons]; omega, ?_⟩
      rw [List.cons_append, numberFraction, htake', hdrop', if_neg hne, hnumber]
  · next hpoint =>
    obtain ⟨hle, hnumber⟩ := numberExponent_append h hrest q
    refine ⟨hle, ?_⟩
    cases s with
    | nil =>
      cases h
      exact absurd rfl hrest
    | cons c r =>
      rw [List.cons_append, numberFraction]
      · exact hnumber
      · intro t ht
        exact hpoint r (by rw [(List.cons.inj ht).1])

theorem unsignedNumber_append {negative : Bool} {s rest : List Char} {l : Leaf}
    (h : unsignedNumber negative s = (l, some rest)) (hrest : rest ≠ []) (q : List Char) :
    rest.length < s.length ∧ unsignedNumber negative (s ++ q) = (l, some (rest ++ q)) := by
  unfold unsignedNumber at h
  split at h
  · cases h
  · cases h
  · next hne hzero =>
    have hdrop : s.dropWhile isDigit ≠ [] := by
      intro he
      rw [he] at h
      cases h
      exact hrest rfl
    obtain ⟨htake', hdrop'⟩ := dropWhile_append_of_ne_nil hdrop q
    obtain ⟨hle, hnumber⟩ := numberFraction_append h hrest q
    have hpos : 0 < (s.takeWhile isDigit).length := List.length_pos_iff.2 hne
    have hlen := congrArg List.length (List.takeWhile_append_dropWhile (p := isDigit) (l := s))
    rw [List.length_append] at hlen
    refine ⟨by omega, ?_⟩
    unfold unsignedNumber
    rw [htake', hdrop', hnumber]
    split
    · contradiction
    · next h => exact absurd h (hzero _ _)
    · rfl

theorem numberLeaf_append {s rest : List Char} {l : Leaf} (h : numberLeaf s = (l, some rest)) (hrest : rest ≠ [])
    (q : List Char) : rest.length < s.length ∧ numberLeaf (s ++ q) = (l, some (rest ++ q)) := by
  rw [numberLeaf_eq] at h ⊢
  cases s with
  | nil => cases h
  | cons c s =>
    rw [show (c :: s ++ q).head? = (c :: s).head? from rfl]
    split at h
    · next hc =>
      obtain ⟨hlen, hnumber⟩ := unsignedNumber_append h hrest q
      rw [if_pos hc]
      exact ⟨by simp only [List.drop_one, List.tail_cons, List.length_cons] at hlen ⊢; omega, hnumber⟩
    · next hc =>
      rw [if_neg hc]
      exact unsignedNumber_append h hrest q

/-- A scalar is cut off in front of its rest; what follows the rest has no part in it. -/
theorem scalarLeaf_append {s rest : List Char} {l : Leaf} (h : scalarLeaf s = (l, some rest)) (q : List Char) :
    rest.length < s.length ∧ (rest ≠ [] → scalarLeaf (s ++ q) = (l, some (rest ++ q))) := by
  unfold scalarLeaf at h
  split at h
  · cases h
  · obtain ⟨hlen, hleaf⟩ := stringLeaf_append h q
    exact ⟨Nat.lt_succ_of_lt hlen, fun _ => hleaf⟩
  · obtain ⟨hlen, hleaf⟩ := wordLeaf_append h q
    exact ⟨Nat.lt_succ_of_le hlen, fun _ => hleaf⟩
  · obtain ⟨hlen, hleaf⟩ := wordLeaf_append h q
    exact ⟨Nat.lt_succ_of_le hlen, fun _ => hleaf⟩
  · obtain ⟨hlen, hleaf⟩ := wordLeaf_append h q
    exact ⟨Nat.lt_succ_of_le hlen, fun _ => hleaf⟩
  · next c r hquote hn ht hf =>
    split at h
    · next hc =>
      refine ⟨?_, fun hrest => ?_⟩
      · obtain rfl | hrest := eq_or_ne rest []
        · exact Nat.succ_pos _
        · exact (numberLeaf_append h hrest q).1
      · rw [List.cons_append, scalarLeaf, if_pos hc]
        · exact (numberLeaf_append h hrest q).2
        · exact hquote
        · exact hn
        · exact ht
        · exact hf
    · cases h

end ContractMigration.Json
