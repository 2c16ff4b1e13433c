import ContractMigration.Proofs.Solidity.Depth
import ContractMigration.Proofs.Solidity.Abreast
import ContractMigration.Proofs.Solidity.Rows

/-! Pragmas. Versions and values are not cut along the pieces of a text, but nothing in a pragma reaches over the semicolon
at its end, so whatever follows there is of no importance. -/

namespace ContractMigration.Solidity

/-! ### Sizes in front of a semicolon -/

section Sizes

variable (s z : List Char)

theorem takeWhile_semicolon {p : Char → Bool} (hp : p ';' = false) : (s ++ ';' :: z).takeWhile p = s.takeWhile p := by
  induction s with
  | nil => rw [List.nil_append, List.takeWhile_cons_of_neg (by simp [hp]), List.takeWhile_nil]
  | cons c s ih => rw [List.cons_append, List.takeWhile_cons, List.takeWhile_cons, ih]

theorem partsSize_semicolon : partsSize (s ++ ';' :: z) = partsSize s := by
  rw [partsSize, partsSize, takeWhile_semicolon s z (by decide)]

theorem partsSize_le : partsSize s ≤ s.length := (List.takeWhile_sublist _).length_le

theorem charSize_semicolon {c : Char} (hc : ';' ≠ c) : charSize c (s ++ ';' :: z) = charSize c s := by
  cases s with
  | nil => simp [charSize, hc]
  | cons d s => rfl

theorem charSize_le (c : Char) : charSize c s ≤ s.length := by
  cases s with
  | nil => exact Nat.le_refl 0
  | cons d s =>
    rw [charSize]
    split_ifs <;> simp

theorem patchSize_eq : patchSize s = if s.head? = some '.' ∧ partsSize s.tail ≠ 0 then partsSize s.tail + 1 else 0 := by
  cases s with
  | nil => rfl
  | cons c r =>
    by_cases hc : c = '.'
    · subst hc
      rw [patchSize]
      by_cases h : partsSize r = 0 <;> simp [h]
    · rw [patchSize]
      · simp [hc]
      · rintro r' h
        exact hc (List.cons.inj h).1

theorem patchSize_semicolon : patchSize (s ++ ';' :: z) = patchSize s := by
  rw [patchSize_eq, patchSize_eq]
  cases s with
  | nil => simp
  | cons c s => simp [partsSize_semicolon]

theorem patchSize_le : patchSize s ≤ s.length := by
  have hle := partsSize_le s.tail
  rw [patchSize_eq]
  split_ifs with h
  · obtain ⟨r, rfl⟩ := List.head?_eq_some_iff.mp h.1
    simpa using hle
  · exact Nat.zero_le _

/-- The size of what follows the first point of a version. -/
def minorTail (r : List Char) : ℕ :=
  let gap := charSize ' ' r
  let parts := partsSize (r.drop gap)
  let rest := r.drop (gap + parts)
  let gap' := charSize ' ' rest
  if parts = 0 then 0 else 1 + gap + parts + gap' + patchSize (rest.drop gap')

theorem minorSize_eq : minorSize s = if s.head? = some '.' then minorTail s.tail else 0 := by
  cases s with
  | nil => rfl
  | cons c r =>
    by_cases hc : c = '.'
    · subst hc
      rfl
    · rw [minorSize]
      · simp [hc]
      · rintro r' h
        exact hc (List.cons.inj h).1

theorem minorTail_semicolon : minorTail (s ++ ';' :: z) = minorTail s ∧ minorTail s ≤ s.length + 1 := by
  have hgap := charSize_le s ' '
  have hparts := partsSize_le (s.drop (charSize ' ' s))
  rw [List.length_drop] at hparts
  have hgap' := charSize_le (s.drop (charSize ' ' s + partsSize (s.drop (charSize ' ' s)))) ' '
  rw [List.length_drop] at hgap'
  have hpatch := patchSize_le ((s.drop (charSize ' ' s + partsSize (s.drop (charSize ' ' s)))).drop
    (charSize ' ' (s.drop (charSize ' ' s + partsSize (s.drop (charSize ' ' s))))))
  rw [List.length_drop, List.length_drop] at hpatch
  constructor
  · simp only [minorTail, charSize_semicolon s z (by decide : ';' ≠ ' '), List.drop_append_of_le_length hgap,
      partsSize_semicolon]
    rw [List.drop_append_of_le_length (by omega), charSize_semicolon _ z (by decide : ';' ≠ ' '),
      List.drop_append_of_le_length (by rw [List.length_drop]; omega), patchSize_semicolon]
  · simp only [minorTail]
    split_ifs <;> omega

theorem minorSize_semicolon : minorSize (s ++ ';' :: z) = minorSize s := by
  rw [minorSize_eq, minorSize_eq]
  cases s with
  | nil => simp
  | cons c s => simp [(minorTail_semicolon s z).1]

theorem minorSize_le : minorSize s ≤ s.length := by
  have hle := (minorTail_semicolon s.tail []).2
  rw [minorSize_eq]
  split_ifs with h
  · obtain ⟨r, rfl⟩ := List.head?_eq_some_iff.mp h
    simpa using hle
  · exact Nat.zero_le _

variable {s z}

/-- What does not reach over the semicolon from the front does not from behind some characters. -/
theorem step_semicolon {f : List Char → ℕ} (hf : ∀ s, f (s ++ ';' :: z) = f s) (hle : ∀ s, f s ≤ s.length) {k : ℕ}
    (hk : k ≤ s.length) : f ((s ++ ';' :: z).drop k) = f (s.drop k) ∧ k + f (s.drop k) ≤ s.length := by
  have hdrop := hle (s.drop k)
  rw [List.length_drop] at hdrop
  rw [List.drop_append_of_le_length hk, hf]
  exact ⟨rfl, by omega⟩

theorem versionSize?_semicolon (s z : List Char) :
    versionSize? (s ++ ';' :: z) = versionSize? s ∧ ∀ n, versionSize? s = some n → n ≤ s.length := by
  have hquote := charSize_semicolon s z (by decide : ';' ≠ '"')
  have hchar : ∀ c, ';' ≠ c → ∀ s, charSize c (s ++ ';' :: z) = charSize c s := fun c hc s => charSize_semicolon s z hc
  obtain ⟨hpoint, hpointLe⟩ := step_semicolon (z := z) (hchar '.' (by decide)) (charSize_le · '.') (charSize_le s '"')
  obtain ⟨hgap, hgapLe⟩ := step_semicolon (z := z) (hchar ' ' (by decide)) (charSize_le · ' ') hpointLe
  obtain ⟨hmajor, hmajorLe⟩ := step_semicolon (z := z) (partsSize_semicolon · z) partsSize_le hgapLe
  obtain ⟨hminor, hminorLe⟩ := step_semicolon (z := z) (minorSize_semicolon · z) minorSize_le hmajorLe
  obtain ⟨hend, hendLe⟩ := step_semicolon (z := z) (hchar '"' (by decide)) (charSize_le · '"') hminorLe
  constructor
  · simp only [versionSize?, hquote, hpoint, hgap, hmajor, hminor, hend]
  · intro n hn
    simp only [versionSize?] at hn
    split_ifs at hn
    exact Option.some.inj hn ▸ hendLe

end Sizes

/-! ### Places in front of the gap -/

/-- Two places with the tokens `front` in between them and the gap, and with the token `t` and the tokens `back` behind the
gap. -/
structure Facing (gap gap' rest : List Char) (t : Token) (back : List Token) (cEnd : Cursor) (front : List Token)
    (c c' : Cursor) : Prop where
  reads : Reads c (front ++ t :: back) cEnd
  sound : ∀ v ∈ front ++ t :: back, Sound v
  regular : ∃ prev, regular prev front = true
  place : ∃ s, c = .ofText s
  place' : c' = .ofText (spelled front ++ (gap' ++ rest))

/-- The gap is the layout in front of a token, and behind the last token of the source there is nothing. -/
structure Parted (gap gap' rest : List Char) (t : Token) (back : List Token) (cEnd : Cursor) : Prop where
  seam : Seam gap gap' rest
  leading : t.leading.toList = gap
  behind : t.text.toList ++ (spelled back ++ (cEnd.lead ++ cEnd.text)) = rest
  ends : cEnd.text = []

variable {gap gap' rest : List Char} {t : Token} {back : List Token} {cEnd : Cursor}

section Facing

variable {front : List Token} {v : Token} {c c' : Cursor} (hp : Parted gap gap' rest t back cEnd)
include hp

theorem Parted.spelled_eq (front : List Token) :
    spelled (front ++ t :: back) ++ (cEnd.lead ++ cEnd.text) = spelled front ++ (gap ++ rest) := by
  rw [spelled_append, spelled_cons, hp.leading, ← hp.behind]
  simp only [List.append_assoc]

theorem Facing.eq_ofText (h : Facing gap gap' rest t back cEnd front c c') :
    c = .ofText (spelled front ++ (gap ++ rest)) := by
  obtain ⟨s, rfl⟩ := h.place
  rw [← hp.spelled_eq, ← h.reads.spelled, Cursor.lead_append_text]

theorem Facing.pieces (h : Facing gap gap' rest t back cEnd front c c') : ∃ prev, Pieces (gap ++ rest) prev (spelled front) := by
  obtain ⟨s, rfl⟩ := h.place
  obtain ⟨prev, hregular⟩ := h.regular
  have hne : t.leading ≠ "" := by
    intro hnil
    have hgap := hp.leading
    rw [hnil] at hgap
    exact hp.seam.ne hgap.symm
  have hpieces := pieces_of_reads h.reads h.sound hp.ends hne hregular
  rw [spelled_cons, hp.leading, List.append_assoc, List.append_assoc, hp.behind] at hpieces
  exact ⟨prev, hpieces⟩

theorem Facing.abreast (h : Facing gap gap' rest t back cEnd front c c') : Abreast gap gap' rest c c' := by
  obtain ⟨prev, hpieces⟩ := h.pieces hp
  rw [h.eq_ofText hp, h.place']
  exact .before hpieces

/-- In front of the gap, the next token stands in both texts behind the same layout. -/
theorem Facing.exists_eq (h : Facing gap gap' rest t back cEnd (v :: front) c c') :
    ∃ lead a, a = v.text.toList ++ spelled front ∧ a ≠ [] ∧ layoutSize (a ++ (gap ++ rest)) = 0 ∧
      (∃ prev, Pieces (gap ++ rest) prev a) ∧ c = ⟨lead, String.ofList (frontWord a), a ++ (gap ++ rest)⟩ ∧
      c' = ⟨lead, String.ofList (frontWord a), a ++ (gap' ++ rest)⟩ := by
  obtain ⟨prev, hpieces⟩ := h.pieces hp
  have htext : c.text = v.text.toList ++ spelled front ++ (gap ++ rest) := by
    rw [h.reads.text_eq, List.append_eq, hp.spelled_eq, List.append_assoc]
  rcases ofText_of_pieces hp.seam hpieces with ⟨lead, he, he'⟩ | ⟨lead, a, hne, hzero, ha, he, he'⟩
  · rw [h.eq_ofText hp, he] at htext
    have hlen := congrArg List.length htext
    have hpos := List.length_pos_iff.mpr hp.seam.ne
    simp only [List.length_append] at hlen
    omega
  · rw [← h.eq_ofText hp] at he
    rw [← h.place'] at he'
    rw [he, List.append_cancel_right_eq] at htext
    exact ⟨lead, a, htext, hne, hzero, ⟨prev, ha⟩, he, he'⟩

end Facing

/-! ### Reading in front of the gap -/

/-- Patterns that do not look behind a semicolon, or do not look into a gap. -/
def Pattern.steady : Pattern → Bool
  | .version | .pragmaValue => true
  | p => p.tame

section Facing

variable {front : List Token} {v : Token} {c c₁ c' : Cursor} (hp : Parted gap gap' rest t back cEnd)
include hp

theorem Facing.size?_of_tame (h : Facing gap gap' rest t back cEnd (v :: front) c c') {p : Pattern}
    (htame : p.tame = true) : p.size? c' = p.size? c := by
  obtain ⟨lead, a, -, hne, hzero, ⟨prev, ha⟩, rfl, rfl⟩ := h.exists_eq hp
  rcases cuts_of_tame hp.seam ha lead hne hzero htame with ⟨hno, hno'⟩ | ⟨u, r, _, -, hu, hu', -⟩
  · rw [hno, hno']
  · rw [hu, hu']

theorem Facing.size?_of_steady (h : Facing gap gap' rest t back cEnd (v :: front) c c') {p : Pattern}
    (hsteady : p.steady = true) (hsemicolon : ∃ w ∈ v :: front, w.text = ";") : p.size? c' = p.size? c := by
  by_cases htame : p.tame = true
  · exact h.size?_of_tame hp htame
  · obtain ⟨lead, a, rfl, -, -, -, rfl, rfl⟩ := h.exists_eq hp
    -- the semicolon is in front of the gap
    have hmem : ';' ∈ v.text.toList ++ spelled front := by
      obtain ⟨w, hw, htext⟩ := hsemicolon
      have hchar : ';' ∈ w.text.toList := by simp [htext]
      rcases List.mem_cons.mp hw with rfl | hw
      · exact List.mem_append_left _ hchar
      · exact List.mem_append_right _ (List.mem_flatMap.mpr ⟨w, hw, List.mem_append_right _ hchar⟩)
    obtain ⟨s, z, ha⟩ := List.append_of_mem hmem
    rw [ha, List.append_assoc, List.append_assoc, List.cons_append, List.cons_append]
    cases p with
    | version => exact (versionSize?_semicolon s _).1.trans (versionSize?_semicolon s _).1.symm
    | pragmaValue =>
      simp only [Pattern.size?]
      rw [takeWhile_semicolon s _ (by decide), takeWhile_semicolon s _ (by decide)]
    | _ => exact absurd hsteady htame

/-- The token in front is read in both texts, if its size is the same. -/
theorem Facing.next (h : Facing gap gap' rest t back cEnd (v :: front) c c') {p : Pattern}
    (hsize : p.size? c' = p.size? c) (hread : p.read? c = some (v, c₁)) (hreads : Reads c₁ (front ++ t :: back) cEnd) :
    ∃ c₁', p.read? c' = some (v, c₁') ∧ Facing gap gap' rest t back cEnd front c₁ c₁' := by
  obtain ⟨lead, a, rfl, -, -, -, rfl, rfl⟩ := h.exists_eq hp
  obtain ⟨n, hn, hv, hc₁⟩ := Pattern.read?_eq_some hread
  have htake : v.text.toList = (v.text.toList ++ spelled front ++ (gap ++ rest)).take n := by
    conv => lhs; rw [hv]
    exact String.toList_ofList
  have hlen : n = v.text.toList.length := by
    have hmin := congrArg List.length htake
    have hpos := List.length_pos_iff.mpr hp.seam.ne
    simp only [List.length_take, List.length_append] at hmin
    omega
  refine ⟨.ofText (spelled front ++ (gap' ++ rest)), ?_, hreads, ?_, ?_, ⟨_, hc₁⟩, rfl⟩
  · rw [Pattern.read?, hsize, hn, Option.map_some, Cursor.advance, hlen]
    simp only [List.append_assoc, List.take_left, List.drop_left]
    rw [String.ofList_toList, hv]
  · exact fun w hw => h.sound w (List.mem_cons_of_mem _ hw)
  · obtain ⟨prev, hregular⟩ := h.regular
    exact ⟨_, (Bool.and_eq_true_iff.mp hregular).2⟩

theorem Facing.read?_of_none (h : Facing gap gap' rest t back cEnd (v :: front) c c') {p : Pattern}
    (htame : p.tame = true) (hread : p.read? c = none) : p.read? c' = none := by
  rw [Pattern.read?, Option.map_eq_none_iff] at hread ⊢
  rw [h.size?_of_tame hp htame, hread]

end Facing

/-! ### Rules in front of the gap -/

namespace Rule

variable {N : Type} {grammar : N → Rule N}

/-- A row of such patterns, of which some may be missing. -/
def steady : Rule N → Bool
  | token p => p.steady
  | opt (token p) => p.steady
  | seq a b => a.steady && b.steady
  | _ => false

theorem eq_token_of_steady {a : Rule N} (h : (opt a).steady = true) : ∃ p, a = token p ∧ p.steady = true := by
  cases a with
  | token p => exact ⟨p, rfl, h⟩
  | _ => cases h

/-- What is read in front of the gap and of a semicolon is read in both texts. -/
theorem parse_of_facing (hp : Parted gap gap' rest t back cEnd) {depth : ℕ} {r : Rule N} (hr : r.steady = true)
    {c c₁ c' : Cursor} {xs : List Tree} {front : List Token} (hparse : parse grammar depth r c = some (xs, c₁))
    (hreads : Reads c₁ (front ++ t :: back) cEnd) (hsemicolon : ∃ w ∈ front, w.text = ";")
    (h : Facing gap gap' rest t back cEnd (Tree.tokensOf xs ++ front) c c') :
    ∃ c₁', parse grammar depth r c' = some (xs, c₁') ∧ Facing gap gap' rest t back cEnd front c₁ c₁' := by
  induction depth generalizing r c c₁ c' xs front with
  | zero => cases hparse
  | succ depth ih =>
    cases fits_of_parse hparse with
    | @token p _ _ v ht =>
      have hnext : Facing gap gap' rest t back cEnd (v :: front) c c' := h
      have hsize := hnext.size?_of_steady hp hr (by simpa using .inr hsemicolon)
      obtain ⟨c₁', hread, h₁⟩ := h.next hp hsize ht hreads
      exact ⟨c₁', by rw [parse_token, hread, Option.map_some], h₁⟩
    | @seq a b _ c₂ _ ys zs ha hb =>
      rw [steady, Bool.and_eq_true] at hr
      rw [Tree.tokensOf_append, List.append_assoc] at h
      have hreads₂ : Reads c₂ (Tree.tokensOf zs ++ front ++ t :: back) cEnd := by
        rw [List.append_assoc]
        exact (reads_of_parse hb).append hreads
      obtain ⟨w, hw, htext⟩ := hsemicolon
      obtain ⟨c₂', hread, h₂⟩ := ih hr.1 ha hreads₂ ⟨w, List.mem_append_right _ hw, htext⟩ h
      obtain ⟨c₁', hread₁, h₁⟩ := ih hr.2 hb hreads ⟨w, hw, htext⟩ h₂
      exact ⟨c₁', by rw [parse_seq, hread, Option.bind_some, hread₁, Option.map_some], h₁⟩
    | @given a _ _ _ ha =>
      obtain ⟨p, rfl, hsteady⟩ := eq_token_of_steady hr
      obtain ⟨c₁', hread, h₁⟩ := ih (r := token p) hsteady ha hreads hsemicolon h
      exact ⟨c₁', by rw [parse_opt, hread, Option.getD_some], h₁⟩
    | @missing a _ ha =>
      obtain ⟨p, rfl, hsteady⟩ := eq_token_of_steady hr
      refine ⟨c', ?_, h⟩
      have hnone : parse grammar depth (token p) c' = none := by
        cases depth with
        | zero => rfl
        | succ depth =>
          obtain ⟨w, hw, htext⟩ := hsemicolon
          obtain ⟨v, front, rfl⟩ := List.exists_cons_of_ne_nil (List.ne_nil_of_mem hw)
          rw [parse_token, Option.map_eq_none_iff, Pattern.read?, Option.map_eq_none_iff] at ha ⊢
          rw [← ha]
          exact h.size?_of_steady hp hsteady ⟨w, hw, htext⟩
      rw [parse_opt, hnone, Option.getD_none]
    | _ => cases hr

/-- A repetition ends at the semicolon in both texts, if no round begins there. -/
theorem parse_many_of_facing (hp : Parted gap gap' rest t back cEnd) {a : Rule N} (hr : a.steady = true)
    (hstop : ∀ depth c, c.Proper → c.text.head? = some ';' → parse grammar depth a c = none) {depth : ℕ}
    {c c₁ c' : Cursor} {xs : List Tree} {front : List Token} {w : Token} (hw : w.text = ";")
    (hparse : parse grammar depth (many a) c = some (xs, c₁)) (hreads : Reads c₁ (w :: front ++ t :: back) cEnd)
    (h : Facing gap gap' rest t back cEnd (Tree.tokensOf xs ++ w :: front) c c') :
    ∃ c₁', parse grammar depth (many a) c' = some (xs, c₁') ∧ Facing gap gap' rest t back cEnd (w :: front) c₁ c₁' := by
  induction depth generalizing c c' xs with
  | zero => cases hparse
  | succ depth ih =>
    cases fits_of_parse hparse with
    | @again _ _ c₂ _ ys zs ha hmany =>
      rw [Tree.tokensOf_append, List.append_assoc] at h
      have hreads₂ : Reads c₂ (Tree.tokensOf zs ++ w :: front ++ t :: back) cEnd := by
        rw [List.append_assoc]
        exact (reads_of_parse hmany).append hreads
      obtain ⟨c₂', hread, h₂⟩ := parse_of_facing hp hr ha hreads₂ ⟨w, by simp, hw⟩ h
      obtain ⟨c₁', hread₁, h₁⟩ := ih hmany h₂
      exact ⟨c₁', by rw [parse_many, hread, Option.elim_some, hread₁, Option.map_some], h₁⟩
    | enough ha =>
      refine ⟨c', ?_, h⟩
      have hnone : parse grammar depth a c' = none := by
        refine hstop depth c' (h.place' ▸ Cursor.proper_ofText _) ?_
        have hnext : Facing gap gap' rest t back cEnd (w :: front) c₁ c' := h
        obtain ⟨lead, b, rfl, -, -, -, -, rfl⟩ := hnext.exists_eq hp
        simp [hw]
      rw [parse_many, hnone, Option.elim_none]

end Rule

/-! ### Pragmas -/

theorem Pattern.read?_of_stop {p : Pattern} (htakes : p.takes = true) (hp : p.avoids ';' = true) {c : Cursor}
    (hc : c.Proper) (hstop : c.text.head? = some ';') : p.read? c = none := by
  obtain ⟨r, htext⟩ := List.head?_eq_some_iff.mp hstop
  rw [read?, Option.map_eq_none_iff, Option.eq_none_iff_forall_ne_some]
  intro n hn
  have hpos := (pos_of_size? htakes hc hn).1
  rw [size?_of_stop (.inr rfl) hp hc htext hn] at hpos
  exact Nat.lt_irrefl 0 hpos

namespace Grammar

open Rule

/-- One version in the list of a pragma. -/
def versions : R := seq rule.versionPart (opt (syms ["||", "-"]))

/-- What a pragma has between its word and its semicolon. -/
def pragmaBody : R := alt (seq (kw "solidity") (many versions)) (seq ident (token .pragmaValue))

def pragma : R := all [kw "pragma", pragmaBody, semicolon]

theorem versions_of_stop (depth : ℕ) (c : Cursor) (hc : c.Proper) (hstop : c.text.head? = some ';') :
    Rule.parse rule depth versions c = none := by
  rw [Option.eq_none_iff_forall_ne_some]
  rintro ⟨xs, c'⟩ h
  obtain ⟨d, ys, zs, c₁, -, hpart, -, -⟩ := seq_of_parse h
  obtain ⟨e, us, vs, c₂, -, hopt, hversion, -⟩ := seq_of_parse hpart
  have hoptional : c₂ = c := by
    cases e with
    | zero => cases hopt
    | succ e =>
      cases fits_of_parse hopt with
      | given ha =>
        obtain ⟨v, hread, -⟩ := read?_of_parse ha
        rw [Pattern.read?_of_stop (by decide) (by decide) hc hstop] at hread
        cases hread
      | missing ha => rfl
  obtain ⟨v, hread, -⟩ := read?_of_parse hversion
  rw [hoptional, Pattern.read?_of_stop rfl rfl hc hstop] at hread
  cases hread

/-- No token in the body of a pragma is a semicolon. -/
theorem text_ne_of_pragmaBody {depth : ℕ} {c c' : Cursor} {xs : List Tree} (hc : c.Proper)
    (h : Rule.parse rule depth pragmaBody c = some (xs, c')) : ∀ v ∈ Tree.tokensOf xs, v.text ≠ ";" := by
  intro v hv hsemicolon
  have hspells : pragmaBody.spells (Pattern.avoids ';') (fun _ => false) = true := by decide
  have of_known := fun hknown => read_of_spells hknown hspells hc h v hv
  obtain ⟨p, c₁, c₂, hp, hc₁, hread⟩ := of_known nofun
  obtain ⟨n, hn, rfl, -⟩ := Pattern.read?_eq_some hread
  have htake : c₁.text.take n = [';'] := by
    have hchars := congrArg String.toList hsemicolon
    rwa [String.toList_ofList] at hchars
  cases htext : c₁.text with
  | nil => simp [htext] at htake
  | cons d r =>
    cases n with
    | zero => simp at htake
    | succ n =>
      rw [htext, List.take_succ_cons, List.cons.injEq] at htake
      rw [htake.1] at htext
      exact absurd (size?_of_stop (.inr rfl) hp hc₁ htext hn) (Nat.succ_ne_zero n)

theorem first_of_pragmaBody (depth : ℕ) {c : Cursor} (h : (Pattern.word "solidity").read? c = none) :
    Rule.parse rule depth (seq (kw "solidity") (many versions)) c = none := by
  rw [Option.eq_none_iff_forall_ne_some]
  rintro ⟨xs, c'⟩ hparse
  obtain ⟨d, ys, zs, c₁, -, hword, -⟩ := seq_of_parse hparse
  obtain ⟨v, hread, -⟩ := read?_of_parse hword
  rw [h] at hread
  cases hread

/-- Where no versions are read although the bound would do, the word is missing. -/
theorem word_of_pragmaBody {depth : ℕ} {c : Cursor} (hdepth : 256 * c.text.length + 9 ≤ depth)
    (h : Rule.parse rule depth (seq (kw "solidity") (many versions)) c = none) :
    (Pattern.word "solidity").read? c = none := by
  obtain ⟨depth, rfl⟩ : ∃ d, depth = d + 2 := ⟨depth - 2, by omega⟩
  rw [parse_seq, kw, parse_token] at h
  rcases hread : (Pattern.word "solidity").read? c with _ | ⟨v, c₁⟩
  · rfl
  · rw [hread, Option.map_some, Option.bind_some, Option.map_eq_none_iff] at h
    have hle := Pattern.length_of_read? hread
    refine absurd h (many_ne_none grounded (Pattern.proper_of_read? hread) (by decide +kernel) ?_)
    have hheight : (many versions).height empties (fun n => 40 * level n) = 5 := by decide +kernel
    dsimp only
    omega

theorem pragmaBody_of_facing (hp : Parted gap gap' rest t back cEnd) {depth : ℕ} {c c₁ c' : Cursor} {xs : List Tree}
    {front : List Token} {w : Token} (hw : w.text = ";") (hdepth : 256 * c.text.length + 10 ≤ depth)
    (hparse : Rule.parse rule depth pragmaBody c = some (xs, c₁)) (hreads : Reads c₁ (w :: front ++ t :: back) cEnd)
    (h : Facing gap gap' rest t back cEnd (Tree.tokensOf xs ++ w :: front) c c') :
    ∃ c₁', Rule.parse rule depth pragmaBody c' = some (xs, c₁') ∧
      Facing gap gap' rest t back cEnd (w :: front) c₁ c₁' := by
  obtain ⟨depth, rfl⟩ : ∃ d, depth = d + 1 := ⟨depth - 1, by omega⟩
  cases fits_of_parse hparse with
  | first _ ha =>
    obtain ⟨depth, ys, zs, c₂, rfl, hword, hmany, rfl⟩ := seq_of_parse ha
    rw [Tree.tokensOf_append, List.append_assoc] at h
    have hreads₂ : Reads c₂ (Tree.tokensOf zs ++ w :: front ++ t :: back) cEnd := by
      rw [List.append_assoc]
      exact (reads_of_parse hmany).append hreads
    obtain ⟨c₂', hread, h₂⟩ := parse_of_facing hp (by decide) hword hreads₂ ⟨w, by simp, hw⟩ h
    obtain ⟨c₁', hread₁, h₁⟩ := parse_many_of_facing hp (by decide) versions_of_stop hw hmany hreads h₂
    refine ⟨c₁', ?_, h₁⟩
    rw [pragmaBody, parse_alt, parse_seq, hread, Option.bind_some, hread₁, Option.map_some, Option.some_or]
  | second ha hb =>
    obtain ⟨c₁', hread₁, h₁⟩ := parse_of_facing hp (by decide) hb hreads ⟨w, by simp, hw⟩ h
    refine ⟨c₁', ?_, h₁⟩
    have hword := word_of_pragmaBody (by omega) ha
    obtain ⟨v, us, hus⟩ := List.exists_cons_of_ne_nil (List.append_ne_nil_of_right_ne_nil (Tree.tokensOf xs)
      (List.cons_ne_nil w front))
    rw [hus] at h
    rw [pragmaBody, parse_alt, first_of_pragmaBody depth (h.read?_of_none hp rfl hword), Option.none_or, hread₁]

end Grammar

end ContractMigration.Solidity
