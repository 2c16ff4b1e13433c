import ContractMigration.Proofs.Json.Spelling

/-! What is scanned at the front of a text that begins with the spelling of a scalar: just that scalar. A number ends
only where the next character cannot belong to it. -/

namespace ContractMigration.Json

/-! ### Strings -/

theorem scanString_unit {a b c d : Char} {wa wb wc wd : Nat} (ha : hexDigit? a = some wa) (hb : hexDigit? b = some wb)
    (hc : hexDigit? c = some wc) (hd : hexDigit? d = some wd) (r : List Char) :
    scanString ('\\' :: 'u' :: a :: b :: c :: d :: r) =
      (.unit (((wa * 16 + wb) * 16 + wc) * 16 + wd) :: (scanString r).1, (scanString r).2) := by
  rw [scanString, ha, hb, hc, hd]

theorem scanString_letter {e c : Char} (hu : e ≠ 'u') (hv : escapeValue? e = some c) (r : List Char) :
    scanString ('\\' :: e :: r) = (.char c :: (scanString r).1, (scanString r).2) := by
  rw [scanString, hv]
  · simp [hu]
  · simp [hu]

theorem scanString_plain {c : Char} (hquote : c ≠ '"') (hslash : c ≠ '\\') (hlow : ¬ c.val < 0x20) (r : List Char) :
    scanString (c :: r) = (.char c :: (scanString r).1, (scanString r).2) := by
  rw [scanString]
  · rw [if_neg hlow]
  · exact hquote
  all_goals simp [hslash]

/-- The spelling of a character in quotes is scanned as one piece that stands for it. -/
theorem scanString_escaped {c : Char} {s : List Char} (h : Escaped c s) (r : List Char) :
    ∃ p, scanString (s ++ r) = (p :: (scanString r).1, (scanString r).2) ∧
      ∀ fault ps, joinUnits fault (p :: ps) = (joinUnits fault ps).map (c :: ·) := by
  cases h with
  | @letter e he hv =>
    have hu : e ≠ 'u' := by
      rintro rfl
      exact absurd he (by decide)
    exact ⟨.char c, scanString_letter hu hv r, fun fault ps => by rw [joinUnits]⟩
  | @digits a b ha hb hc hlow =>
    have hdigit : ∀ k < 16, hexDigit? (Nat.digitChar k) = some k := by decide
    refine ⟨.unit c.toNat, ?_, fun fault ps => ?_⟩
    · have hunit := scanString_unit (by decide : hexDigit? '0' = some 0) (by decide : hexDigit? '0' = some 0)
        (hdigit a ha) (hdigit b hb) r
      rwa [show ((0 * 16 + 0) * 16 + a) * 16 + b = c.toNat by omega] at hunit
    · have hlead : isLead c.toNat = false := by simp [isLead]; omega
      have htrail : isTrail c.toNat = false := by simp [isTrail]; omega
      rw [joinUnits.eq_def]
      simp [htrail, hlead, Char.ofNat_toNat]
  | plain hquote hslash hlow =>
    exact ⟨.char c, scanString_plain hquote hslash hlow r, fun fault ps => by rw [joinUnits]⟩

theorem scanString_quoted (s q : List Char) :
    ∃ ps, scanString (s.flatMap escapeChar ++ '"' :: q) = (ps, .ok q) ∧ joinUnits none ps = .ok s := by
  induction s with
  | nil => exact ⟨[], by simp [scanString], rfl⟩
  | cons c s ih =>
    obtain ⟨ps, hscan, hjoin⟩ := ih
    obtain ⟨p, hp, hc⟩ := scanString_escaped (escaped_escapeChar c) (s.flatMap escapeChar ++ '"' :: q)
    refine ⟨p :: ps, ?_, ?_⟩
    · rw [List.flatMap_cons, List.append_assoc, hp, hscan]
    · rw [hc, hjoin]
      rfl

/-- A string in quotes is read back. -/
theorem stringLeaf_quoted (s : String) (q : List Char) :
    stringLeaf (s.toList.flatMap escapeChar ++ '"' :: q) = (⟨.quote, .ok (.string s), none⟩, some q) := by
  obtain ⟨ps, hscan, hjoin⟩ := scanString_quoted s.toList q
  simp [stringLeaf, hscan, hjoin, Except.map]

/-! ### Numbers -/

/-- No number goes on here. -/
def Stops (q : List Char) : Prop := ∀ c ∈ q.head?, isDigit c = false ∧ c ≠ '.' ∧ c ≠ 'e' ∧ c ≠ 'E'

theorem significand_eq {limit : Nat} {ds : List Char} {n : Nat} (h : Nat.ofDigitChars 10 ds n < limit) :
    significand limit ds n = (Nat.ofDigitChars 10 ds n, 0) := by
  induction ds generalizing n with
  | nil => rfl
  | cons c r ih =>
    rw [Nat.ofDigitChars_cons, Nat.mul_comm, show '0'.toNat = 48 from rfl] at h ⊢
    have hle : n * 10 + (c.toNat - 48) ≤ Nat.ofDigitChars 10 r (n * 10 + (c.toNat - 48)) := by
      rw [Nat.ofDigitChars_eq_ofDigitChars_zero]
      exact Nat.le_add_right_of_le (Nat.le_mul_of_pos_left _ (Nat.pow_pos (by decide)))
    rw [significand, if_pos (Nat.lt_of_le_of_lt hle h), ih h]

theorem isDigit_of_mem_toDigits {k : Nat} {c : Char} (h : c ∈ Nat.toDigits 10 k) : isDigit c = true := by
  simpa [isDigit, Char.isDigit, Char.le_def] using Nat.isDigit_of_mem_toDigits (by decide) (by decide) h

theorem toDigits_head (k : Nat) (h : (Nat.toDigits 10 k).head? = some '0') : k = 0 := by
  induction k using Nat.strong_induction_on with
  | h k ih =>
    by_cases hk : k < 10
    · have hzero : ∀ d < 10, Nat.digitChar d = '0' → d = 0 := by decide
      rw [Nat.toDigits_of_lt_base hk] at h
      exact hzero k hk (by simpa using h)
    · rw [Nat.toDigits_of_base_le (by decide) (by omega),
        List.head?_append_of_ne_nil _ Nat.toDigits_ne_nil] at h
      have := ih (k / 10) (by omega) h
      omega

/-- No digits go on here. -/
def Idle (q : List Char) : Prop := ∀ c ∈ q.head?, isDigit c = false

theorem Stops.idle {q : List Char} (hq : Stops q) : Idle q := fun c hc => (hq c hc).1

theorem idle_cons {c : Char} (hc : isDigit c = false) (q : List Char) : Idle (c :: q) := by
  rintro b hb
  obtain rfl : c = b := by simpa using hb
  exact hc

theorem span_digits {ds q : List Char} (hds : ∀ c ∈ ds, isDigit c = true) (hq : Idle q) :
    (ds ++ q).takeWhile isDigit = ds ∧ (ds ++ q).dropWhile isDigit = q := by
  rw [List.takeWhile_append_of_pos hds, List.dropWhile_append_of_pos hds]
  cases q with
  | nil => simp
  | cons c q => simp [hq c rfl]

theorem numberExponent_stops (finish : Option (Bool × List Char) → Except Error Scalar) {q : List Char}
    (hq : Stops q) : numberExponent finish q = (⟨.plain, finish none, none⟩, some q) := by
  cases q with
  | nil => rfl
  | cons c q => simp [numberExponent, hq c rfl]

theorem numberValue_toDigits {k : Nat} (hk : k < Nat.pow 2 64) :
    numberValue false (Nat.toDigits 10 k) none none = .ok (.nat k) := by
  have hval : Nat.ofDigitChars 10 (Nat.toDigits 10 k) 0 = k := Nat.ofDigitChars_toDigits (by decide) (by decide)
  have hsig : significand (Nat.pow 2 64) (Nat.toDigits 10 k) 0 = (k, 0) := by
    rw [significand_eq (by rw [hval]; exact hk), hval]
  simp only [numberValue, hsig]
  rfl

/-- A natural number is read back where it stops. -/
theorem numberLeaf_toDigits {k : Nat} (hk : k < Nat.pow 2 64) {q : List Char} (hq : Stops q) :
    numberLeaf (Nat.toDigits 10 k ++ q) = (⟨.plain, .ok (.nat k), none⟩, some q) := by
  have hvalue := numberValue_toDigits hk
  have hdigits : ∀ c ∈ Nat.toDigits 10 k, isDigit c = true := fun c => isDigit_of_mem_toDigits
  have hzero : ∀ r, Nat.toDigits 10 k = '0' :: r → r = [] := by
    intro r hr
    rw [toDigits_head k (by rw [hr]; rfl)] at hr
    simpa using hr.symm
  obtain ⟨c, r, hds⟩ := List.exists_cons_of_ne_nil (Nat.toDigits_ne_nil (b := 10) (n := k))
  rw [hds] at hvalue hdigits hzero ⊢
  have hminus : (((c :: r) ++ q).head? == some '-') = false := by
    have : c ≠ '-' := by
      rintro rfl
      exact absurd (hdigits '-' List.mem_cons_self) (by decide)
    simpa using this
  simp only [numberLeaf, hminus, Bool.false_eq_true, if_false, span_digits hdigits hq.idle]
  split
  · next h => cases h
  · next h => simp_all
  · split
    · exact absurd rfl (hq '.' rfl).2.1
    · rw [numberExponent_stops _ hq, hvalue]

end ContractMigration.Json
