import ContractMigration.Plan.Reply
import ContractMigration.Proofs.Text.Blocks

/-! What the content of a reply is. The first block of a text opens at the first three backticks that nothing but a tag and
blanks parts from the end of their line, and that have three backticks somewhere behind that line; its body ends where such
three follow first. So the body has no block in it, and neither has a text without one, and the content of a content is the
content itself. Backticks in front of an opening, even side by side with it, do not hide it. -/

namespace ContractMigration

namespace Text

variable {s t front opening body : List Char} {c : Char}

/-- A block stands in the text: an opening, and three backticks somewhere behind it. -/
def HoldsBlock (s : List Char) : Prop :=
  ∃ front opening body back, IsOpening opening ∧ s = front ++ (opening ++ (body ++ (fence ++ back)))

/-- Neither end of the text is white space. -/
structure Trimmed (s : List Char) : Prop where
  head : ∀ c ∈ s.head?, isBlank c = false
  last : ∀ c ∈ s.getLast?, isBlank c = false

/-- The text is `r` between white space, and `r` does not begin or end with any. -/
structure TrimsTo (s r : List Char) : Prop where
  trimmed : Trimmed r
  between : ∃ front back, s = front ++ r ++ back ∧ (∀ c ∈ front, isBlank c = true) ∧ ∀ c ∈ back, isBlank c = true

/-! ### White space at the ends -/

theorem trimsTo_trimChars (s : List Char) : TrimsTo s (trimChars s) where
  trimmed := ⟨head?_trimWhere, getLast?_trimWhere⟩
  between := exists_trimmed isBlank s

theorem trimChars_infix (s : List Char) : trimChars s <:+: s := by
  obtain ⟨front, back, hs, -, -⟩ := (trimsTo_trimChars s).between
  exact ⟨front, back, hs.symm⟩

theorem Trimmed.trimChars_eq (h : Trimmed s) : trimChars s = s := by
  have hnone : ∀ c ∈ [], isBlank c = true := nofun
  have htrim := trimWhere_append hnone hnone h.head h.last
  rwa [List.nil_append, List.append_nil] at htrim

/-! ### The first block -/

theorem HoldsBlock.fence_infix (h : HoldsBlock s) : fence <:+: s := by
  obtain ⟨front, opening, body, back, -, rfl⟩ := h
  exact ⟨front ++ (opening ++ body), back, by simp⟩

theorem HoldsBlock.of_infix (h : HoldsBlock s) (hst : s <:+: t) : HoldsBlock t := by
  obtain ⟨front, opening, body, back, hopening, rfl⟩ := h
  obtain ⟨before, behind, rfl⟩ := hst
  exact ⟨before ++ front, opening, body, back ++ behind, hopening, by simp⟩

/-- What precedes the first occurrence of a pattern has none in it, and none that the pattern would complete. -/
theorem before?_eq_some_iff {pat p : List Char} (hpat : pat ≠ []) :
    before? pat s = some p ↔ (∃ q, s = p ++ (pat ++ q)) ∧ ¬pat <:+: p ++ pat.dropLast := by
  refine ⟨fun h => ?_, fun ⟨⟨q, hs⟩, hp⟩ => hs ▸ before?_append hp q⟩
  induction s generalizing p with
  | nil => simp [before?, hpat] at h
  | cons c s ih =>
    by_cases hhere : pat <+: c :: s
    · have hnothing := before?_of_prefix hhere
      obtain rfl := Option.some.inj (hnothing.symm.trans h)
      obtain ⟨q, hq⟩ := hhere
      refine ⟨⟨q, hq.symm⟩, fun hwithin => ?_⟩
      have hlength := hwithin.length_le
      rw [List.nil_append, List.length_dropLast] at hlength
      have hpos := List.length_pos_iff.mpr hpat
      omega
    · rw [before?_cons hhere, Option.map_eq_some_iff] at h
      obtain ⟨p, hp, rfl⟩ := h
      obtain ⟨⟨q, rfl⟩, hnot⟩ := ih hp
      refine ⟨⟨q, rfl⟩, fun hwithin => ?_⟩
      have hcut : p ++ pat.dropLast <+: p ++ (pat ++ q) :=
        (List.prefix_append_right_inj p).mpr ((List.dropLast_prefix pat).trans (List.prefix_append pat q))
      exact (List.infix_cons_iff.mp hwithin).elim
        (fun hbegin => hhere (hbegin.trans (List.cons_prefix_cons.mpr ⟨rfl, hcut⟩))) hnot

theorem blockHere?_eq_some_iff {b : List Char} : blockHere? s = some b ↔
    ∃ opening rest, IsOpening opening ∧ s = opening ++ (b ++ (fence ++ rest)) ∧ ¬fence <:+: b ++ fence.dropLast := by
  have hfence : fence ≠ [] := by decide
  simp only [blockHere?, Option.bind_eq_some_iff, afterOpening?_eq_some_iff, before?_eq_some_iff hfence]
  constructor
  · rintro ⟨_, ⟨opening, hopening, rfl⟩, ⟨rest, rfl⟩, hb⟩
    exact ⟨opening, rest, hopening, rfl, hb⟩
  · rintro ⟨opening, rest, hopening, rfl, hb⟩
    exact ⟨_, ⟨opening, hopening, rfl⟩, ⟨rest, rfl⟩, hb⟩

theorem exists_blockHere? (hopening : IsOpening opening) (h : fence <:+: t) : ∃ b, blockHere? (opening ++ t) = some b := by
  obtain ⟨p, -, -, hp⟩ := exists_before? h []
  rw [List.append_nil] at hp
  exact ⟨p, by rw [blockHere?, afterOpening?_append hopening, Option.bind_some, hp]⟩

theorem exists_of_firstBlock? {b : List Char} (h : firstBlock? s = some b) :
    ∃ front opening rest, IsOpening opening ∧ s = front ++ (opening ++ (b ++ (fence ++ rest))) ∧
      ¬fence <:+: b ++ fence.dropLast := by
  induction s with
  | nil => cases h
  | cons c s ih =>
    rw [firstBlock?] at h
    split at h
    · next b' hb' =>
      obtain ⟨opening, rest, hopening, hs, hb⟩ := blockHere?_eq_some_iff.mp (hb'.trans h)
      exact ⟨[], opening, rest, hopening, hs, hb⟩
    · obtain ⟨front, opening, rest, hopening, rfl, hb⟩ := ih h
      exact ⟨c :: front, opening, rest, hopening, rfl, hb⟩

theorem firstBlock?_of_blockHere? {b : List Char} (h : blockHere? s = some b) : firstBlock? s = some b := by
  cases s with
  | nil => cases h
  | cons c s => rw [firstBlock?, h]

theorem firstBlock?_cons (c : Char) (s : List Char) : firstBlock? (c :: s) = (blockHere? (c :: s)).or (firstBlock? s) := by
  rw [firstBlock?]
  cases blockHere? (c :: s) <;> rfl

/-- A block that stands in a text is found, or one before it. -/
theorem firstBlock?_eq_none_iff : firstBlock? s = none ↔ ¬HoldsBlock s := by
  constructor
  · rintro h ⟨front, opening, body, back, hopening, rfl⟩
    induction front with
    | nil =>
      obtain ⟨b, hb⟩ := exists_blockHere? hopening (t := body ++ (fence ++ back)) ⟨body, back, by simp⟩
      cases (firstBlock?_of_blockHere? hb).symm.trans h
    | cons c front ih =>
      rw [List.cons_append, firstBlock?_cons, Option.or_eq_none_iff] at h
      exact ih h.2
  · intro h
    by_contra hne
    obtain ⟨b, hb⟩ := Option.ne_none_iff_exists'.mp hne
    obtain ⟨front, opening, rest, hopening, rfl, -⟩ := exists_of_firstBlock? hb
    exact h ⟨front, opening, b, rest, hopening, rfl⟩

/-- Backticks that run into an opening do not open a block themselves: another one stands behind three of them. -/
theorem blockHere?_run (hfront : ¬fence <:+: c :: front) (hopening : IsOpening opening) :
    blockHere? (c :: front ++ (opening ++ t)) = none := by
  rw [blockHere?, Option.bind_eq_none_iff]
  intro r hr
  exfalso
  obtain ⟨other, hother, h⟩ := afterOpening?_eq_some_iff.mp hr
  obtain ⟨line, rfl, hline⟩ := hother.exists_line
  obtain ⟨line', rfl, -⟩ := hopening.exists_line
  simp only [List.append_assoc, List.singleton_append] at h
  have hshort : (c :: front).length < fence.length := by
    by_contra hlong
    exact hfront (prefix_of_length_le ⟨line ++ '\n' :: r, h.symm⟩ (Nat.le_of_not_lt hlong)).isInfix
  have hnext : ∀ w, '\x60' :: w ≠ line ++ '\n' :: r := by
    intro w hw
    cases line with
    | nil => exact absurd (List.cons.inj hw).1 (by decide)
    | cons d line =>
      obtain rfl := (List.cons.inj hw).1
      exact absurd (hline _ List.mem_cons_self) (by decide)
  rcases front with _ | ⟨d, _ | ⟨e, front⟩⟩
  · simp only [fence, List.cons_append, List.nil_append, List.cons.injEq, true_and] at h
    exact hnext _ h.2
  · simp only [fence, List.cons_append, List.nil_append, List.cons.injEq, true_and] at h
    exact hnext _ h.2.2
  · simp only [fence, List.length_cons, List.length_nil] at hshort
    omega

/-- The block behind a text without three backticks is the first one. -/
theorem firstBlock?_append (hfront : ¬fence <:+: front) (hopening : IsOpening opening)
    (hbody : ¬fence <:+: body ++ fence.dropLast) (rest : List Char) :
    firstBlock? (front ++ (opening ++ (body ++ (fence ++ rest)))) = some body := by
  induction front with
  | nil => exact firstBlock?_of_blockHere? (blockHere?_eq_some_iff.mpr ⟨opening, rest, hopening, rfl, hbody⟩)
  | cons c front ih =>
    have hhere := blockHere?_run (t := body ++ (fence ++ rest)) hfront hopening
    rw [List.cons_append] at hhere ⊢
    rw [firstBlock?_cons, hhere, Option.none_or]
    exact ih fun h => hfront (h.trans (List.suffix_cons c front).isInfix)

end Text

namespace Reply

open Text (HoldsBlock IsOpening Trimmed TrimsTo fence)

theorem toList_content (raw : String) : (content raw).toList = Text.unfenced raw.toList := String.toList_ofList

/-- The content is cut out of the reply, without white space at its ends and without a block. -/
theorem content_cut (raw : String) :
    (content raw).toList <:+: raw.toList ∧ Trimmed (content raw).toList ∧ ¬HoldsBlock (content raw).toList := by
  rw [toList_content, Text.unfenced]
  cases hfirst : Text.firstBlock? raw.toList with
  | none =>
    rw [Option.getD_none]
    have htrim := Text.trimChars_infix raw.toList
    exact ⟨htrim, (Text.trimsTo_trimChars _).trimmed, fun h => Text.firstBlock?_eq_none_iff.mp hfirst (h.of_infix htrim)⟩
  | some body =>
    rw [Option.getD_some]
    have htrim := Text.trimChars_infix body
    obtain ⟨front, opening, rest, -, hraw, hbody⟩ := Text.exists_of_firstBlock? hfirst
    have hcut : body <:+: raw.toList := ⟨front ++ opening, fence ++ rest, by simp [hraw]⟩
    refine ⟨htrim.trans hcut, (Text.trimsTo_trimChars _).trimmed, fun h => ?_⟩
    exact hbody ((h.fence_infix.trans htrim).trans (List.prefix_append body fence.dropLast).isInfix)

/-- A text without a block and without white space at its ends is its own content. -/
theorem content_of_trimmed {text : String} (htrimmed : Trimmed text.toList) (hblock : ¬HoldsBlock text.toList) :
    content text = text := by
  rw [content, Text.unfenced, Text.firstBlock?_eq_none_iff.mpr hblock, Option.getD_none, htrimmed.trimChars_eq,
    String.ofList_toList]

/-- The content is cut out of the reply, trimmed and free of blocks, and its own content. Of a reply without a block it is
the trimmed text. It is the trimmed body of each block in front of which no three backticks stand together, and whose body
no three backticks end but those behind it. -/
theorem content_exact (raw : String) :
    ((content raw).toList <:+: raw.toList ∧ Trimmed (content raw).toList ∧ ¬HoldsBlock (content raw).toList ∧
      content (content raw) = content raw) ∧
    (¬HoldsBlock raw.toList → TrimsTo raw.toList (content raw).toList) ∧
    ∀ front opening body rest, raw.toList = front ++ (opening ++ (body ++ (fence ++ rest))) → ¬fence <:+: front →
      IsOpening opening → ¬fence <:+: body ++ ['\x60', '\x60'] → TrimsTo body (content raw).toList := by
  obtain ⟨hwithin, htrimmed, hblock⟩ := content_cut raw
  refine ⟨⟨hwithin, htrimmed, hblock, content_of_trimmed htrimmed hblock⟩, fun hnone => ?text, ?body⟩
  case text =>
    rw [toList_content, Text.unfenced, Text.firstBlock?_eq_none_iff.mpr hnone, Option.getD_none]
    exact Text.trimsTo_trimChars raw.toList
  case body =>
    intro front opening body rest hraw hfront hopening hbody
    have hfirst := Text.firstBlock?_append hfront hopening hbody rest
    rw [toList_content, Text.unfenced, hraw, hfirst, Option.getD_some]
    exact Text.trimsTo_trimChars body

/-- Two backticks run into the opening, and the closing runs into two more. -/
theorem content_exact_run :
    let raw := "see \x60\x60\x60\x60\x60json \t\r\n [0] \n\x60\x60\x60\x60\x60"
    let front := "see \x60\x60".toList
    let opening := "\x60\x60\x60json \t\r\n".toList
    let body := " [0] \n".toList
    let rest := "\x60\x60".toList
    raw.toList = front ++ (opening ++ (body ++ (fence ++ rest))) ∧ ¬fence <:+: front ∧ IsOpening opening ∧
      ¬fence <:+: body ++ ['\x60', '\x60'] ∧ TrimsTo body (content raw).toList ∧ content raw = "[0]" := by
  intro raw front opening body rest
  have hraw : raw.toList = front ++ (opening ++ (body ++ (fence ++ rest))) := by decide +kernel
  have hfront : ¬fence <:+: front := by decide +kernel
  have hopening : IsOpening opening :=
    ⟨['j', 's', 'o', 'n'], [' ', '\t'], ['\r', '\n'], by decide +kernel, by simp, by simp, .inr rfl⟩
  have hbody : ¬fence <:+: body ++ ['\x60', '\x60'] := by decide +kernel
  have htrims := (content_exact raw).2.2 front opening body rest hraw hfront hopening hbody
  exact ⟨hraw, hfront, hopening, hbody, htrims, by decide +kernel⟩

end Reply

end ContractMigration
