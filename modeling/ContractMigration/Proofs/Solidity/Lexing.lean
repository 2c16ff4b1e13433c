import ContractMigration.Proofs.Solidity.Layout
import ContractMigration.Proofs.Solidity.Reading

/-! How far words and numbers reach. They end in front of a slash, a quote or white space, so whatever follows there is of
no importance to them. -/

namespace ContractMigration.Solidity

/-- The characters that stand in no word and in no number, and which begin layout and quoted texts. -/
def breaks : List Char :=
  ['/', '"', '\'', ' ', '\n', '\t', '\r', '\x0b', '\x0c', '\u00a0', '\u200b', '\u2060', '\ufeff']

theorem mem_breaks_of_isLayout {c : Char} (h : isLayout c = true) : c ∈ breaks := by
  simp only [isLayout, Bool.or_eq_true, beq_iff_eq] at h
  rcases h with ((((((((rfl | rfl) | rfl) | rfl) | rfl) | rfl) | rfl) | rfl) | rfl) | rfl <;> simp [breaks]

theorem mem_breaks_of_isQuote {c : Char} (h : isQuote c = true) : c ∈ breaks := by
  simp only [isQuote, Bool.or_eq_true, beq_iff_eq] at h
  rcases h with rfl | rfl <;> simp [breaks]

/-- Nothing follows that could go on with a word or a number. -/
def Breaks (y : List Char) : Prop := ∀ c, y.head? = some c → c ∈ breaks

theorem eq_false_of_breaks {p : Char → Bool} (hp : breaks.all (!p ·) = true) {c : Char} (hc : c ∈ breaks) : p c = false := by
  simpa using List.all_eq_true.mp hp c hc

theorem takeWhile_append_of_breaks {p : Char → Bool} (hp : breaks.all (!p ·) = true) (u : List Char) {y : List Char}
    (hy : Breaks y) : (u ++ y).takeWhile p = u.takeWhile p := by
  induction u with
  | nil =>
    cases y with
    | nil => rfl
    | cons c y => simp [eq_false_of_breaks hp (hy c rfl)]
  | cons c u ih =>
    rw [List.cons_append, List.takeWhile_cons, List.takeWhile_cons, ih]

theorem ne_of_breaks {c : Char} (hc : c ∉ breaks) {y : List Char} (hy : Breaks y) : y.head? ≠ some c :=
  fun h => hc (hy c h)

theorem isPrefix_frontWord (s : List Char) : frontWord s <+: s := by
  cases s with
  | nil => exact List.prefix_refl _
  | cons c r =>
    rw [frontWord]
    split_ifs
    · exact (List.prefix_cons_inj c).mpr ( List.takeWhile_prefix _)
    · exact List.nil_prefix

theorem digitsSize_le (s : List Char) : digitsSize s ≤ s.length := (List.takeWhile_sublist _).length_le

theorem fractionSize_eq (s : List Char) : fractionSize s =
    if s.head? = some '.' ∧ digitsSize s.tail ≠ 0 then digitsSize s.tail + 1 else 0 := by
  cases s with
  | nil => rfl
  | cons c r =>
    by_cases hc : c = '.'
    · subst hc
      rw [fractionSize]
      by_cases h : digitsSize r = 0 <;> simp [h]
    · rw [fractionSize]
      · simp [hc]
      · rintro r' h
        exact hc (List.cons.inj h).1

theorem fractionSize_le (s : List Char) : fractionSize s ≤ s.length := by
  have hle := digitsSize_le s.tail
  rw [fractionSize_eq]
  split_ifs with h
  · obtain ⟨r, rfl⟩ := List.head?_eq_some_iff.mp h.1
    simpa using hle
  · exact Nat.zero_le _

attribute [local simp] hexDigitsSize

theorem hexDigitsSize_cons {c : Char} {r : List Char} (h : r.head? ≠ some '_') :
    hexDigitsSize (c :: r) = if isHexDigit c then hexDigitsSize r + 1 else 0 := by
  rw [hexDigitsSize]
  rintro r' rfl
  exact h rfl

theorem hexDigitsSize_le (s : List Char) : hexDigitsSize s ≤ s.length := by
  fun_induction hexDigitsSize s <;> simp_all

theorem hexSize_eq (s : List Char) : hexSize s =
    if s.head? = some '0' ∧ (s.tail.head? = some 'x' ∨ s.tail.head? = some 'X') ∧ hexDigitsSize s.tail.tail ≠ 0 then
      hexDigitsSize s.tail.tail + 2 else 0 := by
  unfold hexSize
  split
  · simp
  · next h =>
    refine (if_neg fun hs => ?_).symm
    obtain ⟨r, rfl⟩ := List.head?_eq_some_iff.mp hs.1
    cases r with
    | nil => simp at hs
    | cons x r => exact h x r rfl

theorem plainNumberSize_eq (s : List Char) : plainNumberSize s =
    if s.head? = some '0' then
      if s.tail.head? = some 'x' then (s.tail.tail.takeWhile isHexDigit).length + 2 else 1
    else (s.takeWhile Char.isDigit).length := by
  unfold plainNumberSize
  split
  · simp
  · next r h =>
    have hmark : r.head? ≠ some 'x' := fun hx => by
      obtain ⟨r, rfl⟩ := List.head?_eq_some_iff.mp hx
      exact h r rfl
    simp [hmark]
  · next _ h =>
    have hzero : s.head? ≠ some '0' := fun hs => by
      obtain ⟨r, rfl⟩ := List.head?_eq_some_iff.mp hs
      exact h r rfl
    simp [hzero]

theorem exponentSize_le (s : List Char) : exponentSize s ≤ s.length := by
  cases s with
  | nil => exact Nat.le_refl 0
  | cons e r =>
    have hle := digitsSize_le (r.drop (if r.head? = some '-' then 1 else 0))
    have hsign : (if r.head? = some '-' then 1 else 0) ≤ r.length := by
      cases r with
      | nil => exact Nat.le_refl 0
      | cons c r => split_ifs <;> simp
    rw [List.length_drop] at hle
    simp only [exponentSize, List.length_cons]
    split_ifs at hle hsign ⊢ <;> omega

theorem numberSize_le (s : List Char) : numberSize s ≤ s.length := by
  refine Nat.max_le.mpr ⟨?_, ?_⟩
  · have hwhole := digitsSize_le s
    have hpart := fractionSize_le (s.drop (digitsSize s))
    have hexponent := exponentSize_le (s.drop (digitsSize s + fractionSize (s.drop (digitsSize s))))
    simp only [List.length_drop] at hpart hexponent
    simp only [decimalSize]
    split_ifs <;> omega
  · rw [hexSize_eq]
    split_ifs with h
    · have hle := hexDigitsSize_le s.tail.tail
      have hpos : 0 < hexDigitsSize s.tail.tail := Nat.pos_of_ne_zero h.2.2
      simp only [List.length_tail] at hle
      omega
    · exact Nat.zero_le _

theorem plainNumberSize_le (s : List Char) : plainNumberSize s ≤ s.length := by
  rw [plainNumberSize_eq]
  split_ifs with hzero hmark
  · have hle : (s.tail.tail.takeWhile isHexDigit).length ≤ s.tail.tail.length := (List.takeWhile_sublist _).length_le
    obtain ⟨r, rfl⟩ := List.head?_eq_some_iff.mp hzero
    obtain ⟨r, rfl⟩ := List.head?_eq_some_iff.mp hmark
    simpa using hle
  · obtain ⟨r, rfl⟩ := List.head?_eq_some_iff.mp hzero
    simp
  · exact (List.takeWhile_sublist _).length_le

theorem head_append {r y : List Char} (hy : y.head? ≠ some '_') (hr : ∀ r', r = '_' :: r' → False) :
    (r ++ y).head? ≠ some '_' := by
  cases r with
  | nil => exact hy
  | cons d r =>
    rintro ⟨⟩
    exact hr r rfl

section Breaks

variable (u : List Char) {y : List Char} (hy : Breaks y)
include hy

theorem frontWord_append : frontWord (u ++ y) = frontWord u := by
  cases u with
  | nil =>
    cases y with
    | nil => rfl
    | cons c y =>
      have hstart : isWordStart c = false := eq_false_of_breaks (by decide) (hy c rfl)
      simp [frontWord, hstart]
  | cons c u => rw [List.cons_append, frontWord, frontWord, takeWhile_append_of_breaks (by decide) u hy]

theorem digitsSize_append : digitsSize (u ++ y) = digitsSize u := by
  rw [digitsSize, digitsSize, takeWhile_append_of_breaks (by decide) u hy]

theorem fractionSize_append : fractionSize (u ++ y) = fractionSize u := by
  have hpoint : y.head? ≠ some '.' := ne_of_breaks (by decide) hy
  rw [fractionSize_eq, fractionSize_eq]
  cases u with
  | nil => simp [hpoint]
  | cons c u => simp [digitsSize_append u hy]

theorem exponentSize_append : exponentSize (u ++ y) = exponentSize u := by
  have hminus : y.head? ≠ some '-' := ne_of_breaks (by decide) hy
  cases u with
  | nil =>
    cases y with
    | nil => rfl
    | cons c y =>
      have he : (c == 'e' || c == 'E') = false :=
        eq_false_of_breaks (p := fun c => c == 'e' || c == 'E') (by decide) (hy c rfl)
      rw [Bool.or_eq_false_iff, beq_eq_false_iff_ne, beq_eq_false_iff_ne] at he
      simp [exponentSize, he]
  | cons c u =>
    have hhead : (u ++ y).head? = some '-' ↔ u.head? = some '-' := by
      cases u with
      | nil => simp [hminus]
      | cons d u => rfl
    have hdrop : digitsSize ((u ++ y).drop (if u.head? = some '-' then 1 else 0)) =
        digitsSize (u.drop (if u.head? = some '-' then 1 else 0)) := by
      cases u with
      | nil => simpa using digitsSize_append [] hy
      | cons d u =>
        split_ifs
        · exact digitsSize_append u hy
        · exact digitsSize_append (d :: u) hy
    simp only [List.cons_append, exponentSize, hhead, hdrop]

theorem hexDigitsSize_append : hexDigitsSize (u ++ y) = hexDigitsSize u := by
  have hgap : y.head? ≠ some '_' := ne_of_breaks (by decide) hy
  have hnone : hexDigitsSize y = 0 := by
    cases y with
    | nil => rfl
    | cons c y =>
      have hc : isHexDigit c = false := eq_false_of_breaks (by decide) (hy c rfl)
      unfold hexDigitsSize
      split <;> simp_all
  fun_induction hexDigitsSize u with
  | case1 c r hc ih => rw [List.cons_append, List.cons_append, hexDigitsSize, if_pos hc, ih]
  | case2 c r hc => rw [List.cons_append, List.cons_append, hexDigitsSize, if_neg hc]
  | case3 c r hne hc ih => rw [List.cons_append, hexDigitsSize_cons (head_append hgap hne), if_pos hc, ih]
  | case4 c r hne hc => rw [List.cons_append, hexDigitsSize_cons (head_append hgap hne), if_neg hc]
  | case5 => exact hnone

theorem decimalSize_append : decimalSize (u ++ y) = decimalSize u := by
  have hwhole := digitsSize_le u
  have hpart := fractionSize_le (u.drop (digitsSize u))
  rw [List.length_drop] at hpart
  simp only [decimalSize, digitsSize_append u hy, List.drop_append_of_le_length hwhole,
    fractionSize_append _ hy]
  rw [List.drop_append_of_le_length (by omega), exponentSize_append _ hy]

theorem hexSize_append : hexSize (u ++ y) = hexSize u := by
  have hzero : y.head? ≠ some '0' := ne_of_breaks (by decide) hy
  have hmark : y.head? ≠ some 'x' ∧ y.head? ≠ some 'X' := ⟨ne_of_breaks (by decide) hy, ne_of_breaks (by decide) hy⟩
  rw [hexSize_eq, hexSize_eq]
  match u with
  | [] => simp [hzero]
  | [c] => simp [hmark]
  | c :: d :: u => simp [hexDigitsSize_append u hy]

theorem numberSize_append : numberSize (u ++ y) = numberSize u := by
  rw [numberSize, numberSize, decimalSize_append u hy, hexSize_append u hy]

theorem plainNumberSize_append : plainNumberSize (u ++ y) = plainNumberSize u := by
  have hzero : y.head? ≠ some '0' := ne_of_breaks (by decide) hy
  have hmark : y.head? ≠ some 'x' := ne_of_breaks (by decide) hy
  have hdigits := takeWhile_append_of_breaks (p := Char.isDigit) (by decide) u hy
  have hhex := takeWhile_append_of_breaks (p := isHexDigit) (by decide) u.tail.tail hy
  rw [plainNumberSize_eq, plainNumberSize_eq, hdigits]
  match u, hhex with
  | [], _ => simp [hzero]
  | [c], _ => simp [hmark]
  | c :: d :: u, hhex =>
    have hhex' : (u ++ y).takeWhile isHexDigit = u.takeWhile isHexDigit := hhex
    simp [hhex']

end Breaks

end ContractMigration.Solidity
