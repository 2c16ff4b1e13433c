import ContractMigration.Proofs.Json.Careful
import ContractMigration.Proofs.Json.Parsing

/-! The stretch of a text that a value takes. The value is cut off in the same way in front of anything else that does
not go on with a number, the stretch begins and ends with tokens, and each backtick in it is followed by a quote on its
line. Texts that are one value are told by their white space at the ends alone. -/

namespace ContractMigration.Json

open Text (Sheltered Edged isBlank)

/-! ### Numbers -/

/-- The characters that numbers are written with. -/
def isNumeral (c : Char) : Bool := isDigit c || "-+.eE".toList.contains c

theorem isNumeral_of_isDigit {c : Char} (h : isDigit c = true) : isNumeral c = true := by
  rw [isNumeral, h, Bool.true_or]

/-- The stretch `t` that a number takes, or a part of one: it is scanned in the same way in front of anything that does
not go on with a number. -/
structure Numeral (scan : List Char → Leaf × Option (List Char)) (l : Leaf) (t : List Char) : Prop where
  chars : ∀ c ∈ t, isNumeral c = true
  again : ∀ q, Stops q → scan (t ++ q) = (l, some q)

theorem exponentDigits_extent {finish : Option (Bool × List Char) → Except Error Scalar} {minus : Bool}
    {s rest : List Char} {l : Leaf} (h : exponentDigits finish minus s = (l, some rest)) :
    ∃ ds, ds ≠ [] ∧ s = ds ++ rest ∧ (∀ c ∈ ds, isDigit c = true) ∧
      ∀ q, Stops q → exponentDigits finish minus (ds ++ q) = (l, some q) := by
  unfold exponentDigits at h
  split at h
  · cases h
  · next hne =>
    cases h
    have hdigits : ∀ c ∈ s.takeWhile isDigit, isDigit c = true := fun c => List.mem_takeWhile_imp
    refine ⟨s.takeWhile isDigit, by simpa using hne, List.takeWhile_append_dropWhile.symm, hdigits, fun q hq => ?_⟩
    obtain ⟨htake, hdrop⟩ := span_digits hdigits hq.idle
    rw [exponentDigits, htake, hdrop, if_neg hne]

theorem exponentSign_extent (s : List Char) : ∃ sign, s = sign ++ (exponentSign s).2 ∧
    (∀ c ∈ sign, isNumeral c = true) ∧
    ∀ u, (∀ c ∈ u.head?, isDigit c = true) → exponentSign (sign ++ u) = ((exponentSign s).1, u) := by
  unfold exponentSign
  split_ifs with hplus hminus
  · exact ⟨['+'], (List.cons_head?_tail hplus).symm, List.forall_mem_singleton.2 (by decide), fun u _ => rfl⟩
  · exact ⟨['-'], (List.cons_head?_tail hminus).symm, List.forall_mem_singleton.2 (by decide), fun u _ => rfl⟩
  · refine ⟨[], rfl, by simp, fun u hu => ?_⟩
    have hne : ∀ c, isDigit c = false → u.head? ≠ some c := fun c hc hhead => by simp [hu c hhead] at hc
    rw [List.nil_append, if_neg (hne '+' (by decide)), if_neg (hne '-' (by decide))]

/-- The exponent begins with no digit and no point, if it is there at all. -/
theorem numberExponent_extent {finish : Option (Bool × List Char) → Except Error Scalar} {s rest : List Char} {l : Leaf}
    (h : numberExponent finish s = (l, some rest)) : ∃ t, s = t ++ rest ∧ Numeral (numberExponent finish) l t ∧
      ∀ q, Stops q → Idle (t ++ q) ∧ (t ++ q).head? ≠ some '.' := by
  have hnone : Numeral (numberExponent finish) ⟨.plain, finish none, none⟩ [] ∧
      ∀ q, Stops q → Idle ([] ++ q) ∧ ([] ++ q).head? ≠ some '.' :=
    ⟨⟨by simp, fun q hq => numberExponent_stops finish hq⟩, fun q hq => ⟨hq.idle, fun hc => (hq _ hc).2.1 rfl⟩⟩
  cases s with
  | nil =>
    cases h
    exact ⟨[], rfl, hnone⟩
  | cons c r =>
    rw [numberExponent_cons] at h
    split at h
    · next hc =>
      obtain ⟨sign, hsign, hchars, hagain⟩ := exponentSign_extent r
      obtain ⟨ds, hne, hds, hdigits, hexponent⟩ := exponentDigits_extent h
      rw [hds] at hsign
      refine ⟨c :: (sign ++ ds), by simp [hsign], ⟨?_, fun q hq => ?_⟩, fun q hq => ?_⟩
      · intro a ha
        obtain rfl | ha := List.mem_cons.1 ha
        · obtain rfl | rfl := hc <;> decide
        · obtain ha | ha := List.mem_append.1 ha
          · exact hchars a ha
          · exact isNumeral_of_isDigit (hdigits a ha)
      · have hhead : ∀ a ∈ (ds ++ q).head?, isDigit a = true := fun a ha => by
          rw [List.head?_append_of_ne_nil _ hne] at ha
          exact hdigits a (List.mem_of_mem_head? ha)
        rw [List.cons_append, List.append_assoc, numberExponent_cons, if_pos hc, hagain _ hhead]
        exact hexponent q hq
      · obtain rfl | rfl := hc <;> exact ⟨idle_cons (by decide) _, by simp⟩
    · cases h
      exact ⟨[], rfl, hnone⟩

theorem numberFraction_of_head {negative : Bool} {whole s : List Char} (h : s.head? ≠ some '.') :
    numberFraction negative whole s = numberExponent (numberValue negative whole none) s := by
  unfold numberFraction
  split
  · exact absurd rfl h
  · rfl

theorem numberFraction_extent {negative : Bool} {whole s rest : List Char} {l : Leaf}
    (h : numberFraction negative whole s = (l, some rest)) :
    ∃ t, s = t ++ rest ∧ Numeral (numberFraction negative whole) l t ∧ ∀ q, Stops q → Idle (t ++ q) := by
  unfold numberFraction at h
  split at h
  · next r =>
    split at h
    · cases h
    · next hne =>
      obtain ⟨t, ht, hexponent, hidle⟩ := numberExponent_extent h
      have hdigits : ∀ c ∈ r.takeWhile isDigit, isDigit c = true := fun c => List.mem_takeWhile_imp
      refine ⟨'.' :: (r.takeWhile isDigit ++ t), ?_, ⟨?_, fun q hq => ?_⟩, fun q _ => idle_cons (by decide) _⟩
      · rw [List.cons_append, List.append_assoc, ← ht, List.takeWhile_append_dropWhile]
      · intro a ha
        obtain rfl | ha := List.mem_cons.1 ha
        · decide
        · obtain ha | ha := List.mem_append.1 ha
          · exact isNumeral_of_isDigit (hdigits a ha)
          · exact hexponent.chars a ha
      · obtain ⟨htake, hdrop⟩ := span_digits hdigits (hidle q hq).1
        rw [List.cons_append, List.append_assoc, numberFraction, htake, hdrop, if_neg hne]
        exact hexponent.again q hq
  · obtain ⟨t, rfl, hexponent, hidle⟩ := numberExponent_extent h
    refine ⟨t, rfl, ⟨hexponent.chars, fun q hq => ?_⟩, fun q hq => (hidle q hq).1⟩
    rw [numberFraction_of_head (hidle q hq).2]
    exact hexponent.again q hq

theorem unsignedNumber_extent {negative : Bool} {s rest : List Char} {l : Leaf}
    (h : unsignedNumber negative s = (l, some rest)) :
    ∃ t, t ≠ [] ∧ s = t ++ rest ∧ Numeral (unsignedNumber negative) l t := by
  unfold unsignedNumber at h
  split at h
  · cases h
  · cases h
  · next hne hzero =>
    obtain ⟨t, ht, hfraction, hidle⟩ := numberFraction_extent h
    have hdigits : ∀ c ∈ s.takeWhile isDigit, isDigit c = true := fun c => List.mem_takeWhile_imp
    refine ⟨s.takeWhile isDigit ++ t, fun he => hne (List.append_eq_nil_iff.1 he).1, ?_, ?_, fun q hq => ?_⟩
    · rw [List.append_assoc, ← ht, List.takeWhile_append_dropWhile]
    · intro a ha
      obtain ha | ha := List.mem_append.1 ha
      · exact isNumeral_of_isDigit (hdigits a ha)
      · exact hfraction.chars a ha
    · obtain ⟨htake, hdrop⟩ := span_digits hdigits (hidle q hq)
      rw [List.append_assoc, unsignedNumber, htake, hdrop, hfraction.again q hq]
      split
      · contradiction
      · next h => exact absurd h (hzero _ _)
      · rfl

theorem numberLeaf_extent {s rest : List Char} {l : Leaf} (h : numberLeaf s = (l, some rest)) :
    ∃ t, t ≠ [] ∧ s = t ++ rest ∧ Numeral numberLeaf l t := by
  rw [numberLeaf_eq] at h
  split at h
  · next hc =>
    obtain ⟨t, -, ht, hnumber⟩ := unsignedNumber_extent h
    have hs : s = '-' :: (t ++ rest) := by
      rw [← ht, List.drop_one]
      exact (List.cons_head?_tail (by simpa using hc)).symm
    refine ⟨'-' :: t, by simp, hs, ?_, fun q hq => ?_⟩
    · simpa using ⟨by decide, hnumber.chars⟩
    · rw [numberLeaf_eq]
      exact hnumber.again q hq
  · next hc =>
    obtain ⟨t, hne, rfl, hnumber⟩ := unsignedNumber_extent h
    refine ⟨t, hne, rfl, hnumber.chars, fun q hq => ?_⟩
    rw [List.head?_append_of_ne_nil _ hne] at hc
    rw [numberLeaf_eq, List.head?_append_of_ne_nil _ hne, if_neg hc]
    exact hnumber.again q hq

/-! ### Scalars -/

theorem sheltered_cons {c : Char} {t : List Char} (hc : c ≠ '\x60') (ht : Sheltered t) : Sheltered (c :: t) :=
  ⟨fun h => absurd h hc, ht⟩

theorem Space.sheltered {w : List Char} (hw : Space w) : Sheltered w := hw.strung.sheltered

/-- White space and a token that is no backtick. -/
theorem sheltered_token {w t : List Char} {c : Char} (hw : Space w) (hc : c ≠ '\x60') (ht : Sheltered t) :
    Sheltered (w ++ c :: t) := hw.sheltered.append (sheltered_cons hc ht)

theorem numeral_edged {t : List Char} (hne : t ≠ []) (ht : ∀ c ∈ t, isNumeral c = true) : Edged t ∧ Sheltered t := by
  have hdark : ∀ c, isNumeral c = true → isBlank c = false ∧ c ≠ '\x60' := by
    intro c hc
    simp only [isNumeral, isDigit, Bool.or_eq_true, Bool.and_eq_true, decide_eq_true_eq, List.contains_iff_mem] at hc
    obtain hc | hc := hc
    · have hlow : 48 ≤ c.toNat := UInt32.le_iff_toNat_le.1 hc.1
      have hhigh : c.toNat ≤ 57 := UInt32.le_iff_toNat_le.1 hc.2
      refine ⟨?_, fun h => absurd hc.2 (by rw [h]; decide)⟩
      simp [isBlank, ← UInt32.toNat_inj, UInt32.le_iff_toNat_le]
      omega
    · have hall : "-+.eE".toList.all (fun c => !isBlank c && c != '\x60') = true := by decide
      simpa using List.all_eq_true.mp hall c hc
  refine ⟨⟨hne, fun c hc => (hdark c (ht c (List.mem_of_mem_head? hc))).1,
    fun c hc => (hdark c (ht c (List.mem_of_getLast? hc))).1⟩, ?_⟩
  exact (Strung.of_plain fun c hc => (hdark c (ht c hc)).2).sheltered

/-- A scalar takes a stretch of the text that begins and ends with its own characters. -/
theorem scalarLeaf_extent {s rest : List Char} {l : Leaf} (h : scalarLeaf s = (l, some rest)) :
    ∃ t, s = t ++ rest ∧ Edged t ∧ Sheltered t ∧ ∀ q, Stops q → scalarLeaf (t ++ q) = (l, some q) := by
  have hword : ∀ {start value letters c r}, wordLeaf start letters value r = (l, some rest) →
      (c :: letters).all (fun a => !isBlank a && a != '\x60') = true →
      c :: r = (c :: letters) ++ rest ∧ Edged (c :: letters) ∧ Sheltered (c :: letters) := by
    intro start value letters c r h hchars
    have hall : ∀ a ∈ c :: letters, isBlank a = false ∧ a ≠ '\x60' := fun a ha => by
      simpa using List.all_eq_true.mp hchars a ha
    rw [(wordLeaf_eq_some_iff.1 h).1]
    refine ⟨rfl, ⟨by simp, fun a ha => (hall a (List.mem_of_mem_head? ha)).1,
      fun a ha => (hall a (List.mem_of_getLast? ha)).1⟩, ?_⟩
    exact (Strung.of_plain fun a ha => (hall a ha).2).sheltered
  unfold scalarLeaf at h
  split at h
  · cases h
  · obtain ⟨b, rfl, hline, hscan⟩ := stringLeaf_extent h
    refine ⟨'"' :: (b ++ ['"']), by simp, Text.edged_of_ends (by decide) (by decide) b, ?_, fun q _ => ?_⟩
    · exact sheltered_cons (by decide) (sheltered_append_quote hline trivial)
    · simpa [scalarLeaf] using hscan q
  · obtain ⟨hs, hedged, hsheltered⟩ := hword h (c := 'n') (by decide)
    exact ⟨_, hs, hedged, hsheltered, fun q _ => wordLeaf_eq_some_iff.2 ⟨rfl, (wordLeaf_eq_some_iff.1 h).2⟩⟩
  · obtain ⟨hs, hedged, hsheltered⟩ := hword h (c := 't') (by decide)
    exact ⟨_, hs, hedged, hsheltered, fun q _ => wordLeaf_eq_some_iff.2 ⟨rfl, (wordLeaf_eq_some_iff.1 h).2⟩⟩
  · obtain ⟨hs, hedged, hsheltered⟩ := hword h (c := 'f') (by decide)
    exact ⟨_, hs, hedged, hsheltered, fun q _ => wordLeaf_eq_some_iff.2 ⟨rfl, (wordLeaf_eq_some_iff.1 h).2⟩⟩
  · next c r hquote hn ht hf =>
    split at h
    · next hc =>
      obtain ⟨t, hne, hs, hnumber⟩ := numberLeaf_extent h
      obtain ⟨hedged, hsheltered⟩ := numeral_edged hne hnumber.chars
      refine ⟨t, hs, hedged, hsheltered, fun q hq => ?_⟩
      obtain ⟨a, t, rfl⟩ := List.exists_cons_of_ne_nil hne
      obtain rfl : c = a := (List.cons.inj hs).1
      rw [List.cons_append, scalarLeaf, if_pos hc]
      · exact hnumber.again q hq
      · exact hquote
      · exact hn
      · exact ht
      · exact hf
    · cases h

/-! ### Values -/

theorem isBlank_of_isSpace {c : Char} (h : isSpace c = true) : isBlank c = true := by
  simp only [isSpace, Bool.or_eq_true, beq_iff_eq] at h
  obtain ((rfl | rfl) | rfl) | rfl := h <;> decide

theorem exists_space {s r : List Char} (h : dropSpace s = r) : ∃ w, Space w ∧ s = w ++ r := by
  obtain ⟨w, hs, hw⟩ := Text.exists_dropped isSpace s
  exact ⟨w, hw, by rwa [← dropSpace, h] at hs⟩

theorem dropSpace_edged {w t : List Char} (hw : Space w) (ht : Edged t) (q : List Char) :
    dropSpace (w ++ (t ++ q)) = t ++ q := by
  obtain ⟨c, t, rfl⟩ := List.exists_cons_of_ne_nil ht.ne_nil
  refine dropSpace_closing hw (Bool.eq_false_iff.2 fun hc => ?_)
  exact absurd (isBlank_of_isSpace hc) (by simp [ht.head c rfl])

/-- How a phrase begins and ends: a value behind white space with its first and last tokens, items and members with
the closing bracket. -/
def Phrase.Framed (t : List Char) : Phrase → Prop
  | .value _ => ∃ w u, t = w ++ u ∧ Space w ∧ Edged u
  | .items _ => ∃ m, t = m ++ [']']
  | .members _ => ∃ m, t = m ++ ['\x7d']

theorem framed_brackets {w : List Char} {a b : Char} (hw : Space w) (ha : isBlank a = false) (hb : isBlank b = false)
    (m : List Char) (d : Doc) : (Phrase.value d).Framed (w ++ a :: (m ++ [b])) :=
  ⟨w, _, rfl, hw, Text.edged_of_ends ha hb m⟩

/-- A phrase takes a stretch of the text whose backticks are sheltered, and it is cut off in the same way in front of
anything that does not go on with a number. -/
theorem Cuts.extent {room : Nat} {p : Phrase} {s rest : List Char} (h : Cuts room p s rest) :
    ∃ t, s = t ++ rest ∧ p.Framed t ∧ Sheltered t ∧ ∀ q, Stops q → Cuts room p (t ++ q) q := by
  have hmark : ∀ {w : List Char} {c : Char}, Space w → isSpace c = false →
      isDigit c = false ∧ c ≠ '.' ∧ c ≠ 'e' ∧ c ≠ 'E' → ∀ q, Stops (w ++ c :: q) ∧ dropSpace (w ++ c :: q) = c :: q :=
    fun hw hspace hc q => ⟨stops_space hw (stops_cons hc q), dropSpace_closing hw hspace⟩
  induction h with
  | @scalar room s rest l h =>
    obtain ⟨t, hs, hedged, hsheltered, hagain⟩ := scalarLeaf_extent h
    obtain ⟨w, hw, rfl⟩ := exists_space hs
    refine ⟨w ++ t, by simp, ⟨w, t, rfl, hw, hedged⟩, hw.sheltered.append hsheltered, fun q hq => .scalar ?_⟩
    rw [List.append_assoc, dropSpace_edged hw hedged]
    exact hagain q hq
  | @noItems room s r rest h hr =>
    obtain ⟨w, hw, rfl⟩ := exists_space h
    obtain ⟨w', hw', rfl⟩ := exists_space hr
    refine ⟨w ++ '[' :: (w' ++ [']']), by simp, framed_brackets hw (by decide) (by decide) w' _,
      sheltered_token hw (by decide) (sheltered_token hw' (by decide) trivial), fun q _ => ?_⟩
    simpa using @Cuts.noItems room _ _ _ (dropSpace_closing hw (by decide)) (dropSpace_closing hw' (by decide))
  | @list room s r rest ds h hr ih =>
    obtain ⟨w, hw, rfl⟩ := exists_space h
    obtain ⟨t, rfl, ⟨m, rfl⟩, hsheltered, hagain⟩ := ih
    refine ⟨w ++ '[' :: (m ++ [']']), by simp, framed_brackets hw (by decide) (by decide) m _,
      sheltered_token hw (by decide) hsheltered, fun q hq => ?_⟩
    simpa using @Cuts.list room _ _ _ _ (dropSpace_closing hw (by decide)) (hagain q hq)
  | @noMembers room s r rest h hr =>
    obtain ⟨w, hw, rfl⟩ := exists_space h
    obtain ⟨w', hw', rfl⟩ := exists_space hr
    refine ⟨w ++ '\x7b' :: (w' ++ ['\x7d']), by simp, framed_brackets hw (by decide) (by decide) w' _,
      sheltered_token hw (by decide) (sheltered_token hw' (by decide) trivial), fun q _ => ?_⟩
    simpa using @Cuts.noMembers room _ _ _ (dropSpace_closing hw (by decide)) (dropSpace_closing hw' (by decide))
  | @object room s r r' rest ms h hr _ ih =>
    obtain ⟨w, hw, rfl⟩ := exists_space h
    obtain ⟨w', hw', rfl⟩ := exists_space hr
    obtain ⟨t, rfl, ⟨m, rfl⟩, hsheltered, hagain⟩ := ih
    refine ⟨w ++ '\x7b' :: ((w' ++ '"' :: m) ++ ['\x7d']), by simp, framed_brackets hw (by decide) (by decide) _ _,
      sheltered_token hw (by decide) (by simpa using sheltered_token hw' (by decide) hsheltered), fun q hq => ?_⟩
    simpa using @Cuts.object room _ _ _ _ _ (dropSpace_closing hw (by decide)) (dropSpace_closing hw' (by decide))
      (hagain q hq)
  | @lastItem room s r rest d _ hr ih =>
    obtain ⟨t, rfl, -, hsheltered, hagain⟩ := ih
    obtain ⟨w, hw, rfl⟩ := exists_space hr
    refine ⟨t ++ w ++ [']'], by simp, ⟨_, rfl⟩, ?_, fun q hq => ?_⟩
    · simpa using hsheltered.append (sheltered_token hw (t := []) (c := ']') (by decide) trivial)
    · obtain ⟨hstops, hdrop⟩ := hmark hw (by decide : isSpace ']' = false) (by decide) q
      simpa using Cuts.lastItem (hagain _ hstops) hdrop
  | @nextItem room s r r' rest d ds _ hr _ ih ih' =>
    obtain ⟨t, rfl, -, hsheltered, hagain⟩ := ih
    obtain ⟨w, hw, rfl⟩ := exists_space hr
    obtain ⟨t', rfl, ⟨m, rfl⟩, hsheltered', hagain'⟩ := ih'
    refine ⟨t ++ w ++ ',' :: m ++ [']'], by simp, ⟨_, rfl⟩, ?_, fun q hq => ?_⟩
    · simpa using hsheltered.append (sheltered_token hw (by decide) hsheltered')
    · obtain ⟨hstops, hdrop⟩ := hmark hw (by decide : isSpace ',' = false) (by decide) (m ++ [']'] ++ q)
      simpa using Cuts.nextItem (hagain _ hstops) hdrop (hagain' q hq)
  | @lastMember room s r r' u rest k d hk hr _ hu ih =>
    obtain ⟨b, rfl, hline, hkey⟩ := stringLeaf_extent hk
    obtain ⟨w, hw, rfl⟩ := exists_space hr
    obtain ⟨t, rfl, -, hsheltered, hagain⟩ := ih
    obtain ⟨w', hw', rfl⟩ := exists_space hu
    refine ⟨b ++ '"' :: (w ++ ':' :: (t ++ w')) ++ ['\x7d'], by simp, ⟨_, rfl⟩, ?_, fun q hq => ?_⟩
    · have hclose := hsheltered.append (sheltered_token hw' (t := []) (c := '\x7d') (by decide) trivial)
      simpa using sheltered_append_quote hline (sheltered_token hw (by decide) hclose)
    · obtain ⟨hstops, hdrop⟩ := hmark hw' (by decide : isSpace '\x7d' = false) (by decide) q
      simpa using Cuts.lastMember (hkey _) (dropSpace_closing hw (by decide)) (hagain _ hstops) hdrop
  | @nextMember room s r r' u u' v rest k d ms hk hr _ hu hv _ ih ih' =>
    obtain ⟨b, rfl, hline, hkey⟩ := stringLeaf_extent hk
    obtain ⟨w, hw, rfl⟩ := exists_space hr
    obtain ⟨t, rfl, -, hsheltered, hagain⟩ := ih
    obtain ⟨w', hw', rfl⟩ := exists_space hu
    obtain ⟨w'', hw'', rfl⟩ := exists_space hv
    obtain ⟨t', rfl, ⟨m, rfl⟩, hsheltered', hagain'⟩ := ih'
    refine ⟨b ++ '"' :: (w ++ ':' :: (t ++ w' ++ ',' :: (w'' ++ '"' :: m))) ++ ['\x7d'], by simp, ⟨_, rfl⟩, ?_,
      fun q hq => ?_⟩
    · have hmore := hsheltered.append
        (sheltered_token hw' (c := ',') (by decide) (sheltered_token hw'' (c := '"') (by decide) hsheltered'))
      simpa using sheltered_append_quote hline (sheltered_token hw (by decide) hmore)
    · obtain ⟨hstops, hdrop⟩ := hmark hw' (by decide : isSpace ',' = false) (by decide) (w'' ++ '"' :: (m ++ ['\x7d'] ++ q))
      simpa using Cuts.nextMember (hkey _) (dropSpace_closing hw (by decide)) (hagain _ hstops) hdrop
        (dropSpace_closing hw'' (by decide)) (hagain' q hq)

end ContractMigration.Json
