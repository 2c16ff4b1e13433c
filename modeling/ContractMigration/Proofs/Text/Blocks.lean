import ContractMigration.Proofs.Text.Cuts
import ContractMigration.Text.Fence

/-! Where fenced blocks begin and end. The body of a block ends at the first three backticks behind its opening,
wherever they stand. A block opens only where nothing but a tag and white space stands between three backticks and the
end of their line, so a text whose backticks are all followed by a quote on the same line has no block. -/

namespace ContractMigration.Text

/-! ### Occurrences of a pattern -/

/-- A character that is not in the pattern keeps its occurrences apart. -/
theorem infix_append_cons_iff {pat a b : List Char} {c : Char} (hc : c ∉ pat) :
    pat <:+: a ++ c :: b ↔ pat <:+: a ∨ pat <:+: b := by
  constructor
  · rintro ⟨u, v, h⟩
    rw [List.append_assoc, List.append_eq_append_iff] at h
    obtain ⟨x, rfl, h⟩ | ⟨x, rfl, h⟩ := h
    · rw [List.append_eq_append_iff] at h
      obtain ⟨y, rfl, h⟩ | ⟨y, rfl, h⟩ := h
      · exact .inl ⟨u, y, by simp⟩
      · cases y with
        | nil => exact .inl ⟨u, [], by simp⟩
        | cons d y => simp_all
    · cases x with
      | nil =>
        cases pat with
        | nil => exact .inl (List.nil_infix)
        | cons d pat => simp_all
      | cons d x =>
        simp only [List.cons_append, List.cons.injEq] at h
        exact .inr ⟨x, v, by simp [h.2]⟩
  · rintro (⟨u, v, rfl⟩ | ⟨u, v, rfl⟩)
    · exact ⟨u, v ++ c :: b, by simp⟩
    · exact ⟨a ++ c :: u, v, by simp⟩

theorem before?_of_prefix {pat s : List Char} (h : pat <+: s) : before? pat s = some [] := by
  cases s with
  | nil => simp [before?, List.prefix_nil.1 h]
  | cons c s => rw [before?, if_pos (startsWith_iff.2 h)]

theorem before?_cons {pat s : List Char} {c : Char} (h : ¬ pat <+: c :: s) :
    before? pat (c :: s) = (before? pat s).map (c :: ·) := by
  rw [before?, if_neg (fun hs => h (startsWith_iff.1 hs))]

/-- A pattern that begins a longer text begins every part of it that is long enough. -/
theorem prefix_of_length_le {pat s t : List Char} (h : pat <+: s ++ t) (hl : pat.length ≤ s.length) : pat <+: s :=
  List.prefix_of_prefix_length_le h (List.prefix_append s t) hl

/-- The pattern is found where it stands, if it does not begin earlier. -/
theorem before?_append {pat p : List Char} (h : ¬ pat <:+: p ++ pat.dropLast) (q : List Char) :
    before? pat (p ++ (pat ++ q)) = some p := by
  induction p with
  | nil => exact before?_of_prefix ⟨q, rfl⟩
  | cons c p ih =>
    have hpat : pat ≠ [] := fun he => h (he ▸ List.nil_infix)
    have hlen : pat.length ≤ (c :: p ++ pat.dropLast).length := by
      simp only [List.length_append, List.length_cons, List.length_dropLast]
      omega
    -- an earlier occurrence would end before the last character of this one
    have hpre : ¬ pat <+: c :: (p ++ (pat ++ q)) := by
      intro hp
      obtain ⟨l, hl⟩ : ∃ l, pat ++ q = pat.dropLast ++ l :=
        ⟨[pat.getLast hpat] ++ q, by rw [← List.append_assoc, List.dropLast_concat_getLast]⟩
      rw [hl, ← List.append_assoc] at hp
      exact h (prefix_of_length_le hp hlen).isInfix
    rw [List.cons_append, before?_cons hpre,
      ih fun hi => h (hi.trans (List.suffix_cons c (p ++ pat.dropLast)).isInfix)]
    rfl

/-- A pattern that occurs is found at its first occurrence, whatever follows the text. -/
theorem exists_before? {pat s : List Char} (h : pat <:+: s) (t : List Char) :
    ∃ p q, s = p ++ (pat ++ q) ∧ before? pat (s ++ t) = some p := by
  induction s with
  | nil =>
    obtain rfl := List.infix_nil.1 h
    exact ⟨[], [], rfl, before?_of_prefix List.nil_prefix⟩
  | cons c s ih =>
    by_cases hp : pat <+: c :: s
    · obtain ⟨q, hq⟩ := hp
      exact ⟨[], q, hq.symm, before?_of_prefix ⟨q ++ t, by simp [← hq]⟩⟩
    · have hi : pat <:+: s := (List.infix_cons_iff.1 h).resolve_left hp
      obtain ⟨p, q, hs, hb⟩ := ih hi
      have hp' : ¬ pat <+: c :: (s ++ t) := fun hl =>
        hp (prefix_of_length_le hl (by have := hi.length_le; simp; omega))
      exact ⟨c :: p, q, by simp [hs], by rw [List.cons_append, before?_cons hp', hb]; rfl⟩

/-! ### Openings -/

/-- A text is what is dropped in front, all of one kind, and what is left. -/
theorem exists_dropped (p : Char → Bool) (s : List Char) : ∃ a, s = a ++ s.dropWhile p ∧ ∀ c ∈ a, p c = true :=
  ⟨s.takeWhile p, List.takeWhile_append_dropWhile.symm, fun _ => List.mem_takeWhile_imp⟩

/-- Three backticks, a tag, blanks, and the end of the line. -/
def IsOpening (opening : List Char) : Prop :=
  ∃ tag blanks ending, opening = fence ++ tag ++ blanks ++ ending ∧
    (∀ c ∈ tag, c.isAlphanum = true ∨ c = '_' ∨ c = '-') ∧ (∀ c ∈ blanks, c = ' ' ∨ c = '\t') ∧
      (ending = ['\n'] ∨ ending = ['\r', '\n'])

theorem isTagChar_iff {c : Char} : isTagChar c = true ↔ c.isAlphanum = true ∨ c = '_' ∨ c = '-' := by
  simp [isTagChar, or_assoc]

theorem afterOpening?_append {opening : List Char} (h : IsOpening opening) (r : List Char) :
    afterOpening? (opening ++ r) = some r := by
  obtain ⟨tag, blanks, ending, rfl, htag, hblanks, hending⟩ := h
  have htag : ∀ c ∈ tag, isTagChar c = true := fun c hc => isTagChar_iff.mpr (htag c hc)
  have hblanks' : ∀ c ∈ blanks, (c == ' ' || c == '\t') = true := by simpa using hblanks
  have hfirst : ∀ c ∈ (ending ++ r).head?, c = '\n' ∨ c = '\r' := by
    rcases hending with rfl | rfl <;> simp
  have hnoTag : ∀ c ∈ (blanks ++ (ending ++ r)).head?, isTagChar c = false := by
    intro c hc
    rw [List.head?_append, Option.mem_def, Option.or_eq_some_iff] at hc
    rcases hc with hc | ⟨-, hc⟩
    · rcases hblanks c (List.mem_of_mem_head? hc) with rfl | rfl <;> decide
    · rcases hfirst c hc with rfl | rfl <;> decide
  have hnoBlank : ∀ c ∈ (ending ++ r).head?, (c == ' ' || c == '\t') = false := by
    intro c hc
    rcases hfirst c hc with rfl | rfl <;> decide
  have hstrip : stripStart? fence (fence ++ tag ++ blanks ++ ending ++ r) = some (tag ++ (blanks ++ (ending ++ r))) :=
    stripStart?_eq_some_iff.mpr (by simp)
  simp only [afterOpening?, hstrip, Option.bind_eq_bind, Option.bind_some, List.dropWhile_append_of_pos htag,
    dropWhile_of_head hnoTag, List.dropWhile_append_of_pos hblanks', dropWhile_of_head hnoBlank]
  rcases hending with rfl | rfl <;> rfl

/-- What stands behind an opening is found, and nothing else is. -/
theorem afterOpening?_eq_some_iff {s r : List Char} :
    afterOpening? s = some r ↔ ∃ opening, IsOpening opening ∧ s = opening ++ r := by
  constructor
  · intro h
    simp only [afterOpening?, Option.bind_eq_bind, Option.bind_eq_some_iff, stripStart?_eq_some_iff] at h
    obtain ⟨t, rfl, h⟩ := h
    obtain ⟨tag, ht, htag⟩ := exists_dropped isTagChar t
    obtain ⟨blanks, hu, hblanks⟩ := exists_dropped (fun c => c == ' ' || c == '\t') (t.dropWhile isTagChar)
    have htag : ∀ c ∈ tag, c.isAlphanum = true ∨ c = '_' ∨ c = '-' := fun c hc => isTagChar_iff.mp (htag c hc)
    have hblanks : ∀ c ∈ blanks, c = ' ' ∨ c = '\t' := by simpa using hblanks
    rw [ht, hu]
    split at h
    · next w hw =>
      obtain rfl := Option.some.inj h
      exact ⟨_, ⟨tag, blanks, ['\r', '\n'], rfl, htag, hblanks, .inr rfl⟩, by rw [hw]; simp⟩
    · next w hw =>
      obtain rfl := Option.some.inj h
      exact ⟨_, ⟨tag, blanks, ['\n'], rfl, htag, hblanks, .inl rfl⟩, by rw [hw]; simp⟩
    · cases h
  · rintro ⟨opening, hopening, rfl⟩
    exact afterOpening?_append hopening r

/-- Between the backticks of an opening and the end of its line stand only characters of the tag and white space. -/
theorem IsOpening.exists_line {opening : List Char} (h : IsOpening opening) :
    ∃ line, opening = fence ++ line ++ ['\n'] ∧ ∀ c ∈ line, c.isAlphanum = true ∨ c ∈ ['_', '-', ' ', '\t', '\r'] := by
  obtain ⟨tag, blanks, ending, rfl, htag, hblanks, hending⟩ := h
  have hline : ∀ c ∈ tag ++ blanks, c.isAlphanum = true ∨ c ∈ ['_', '-', ' ', '\t', '\r'] := by
    intro c hc
    rcases List.mem_append.mp hc with hc | hc
    · exact (htag c hc).imp_right fun hc => by rcases hc with rfl | rfl <;> decide
    · exact .inr (by rcases hblanks c hc with rfl | rfl <;> decide)
  rcases hending with rfl | rfl
  · exact ⟨tag ++ blanks, by simp, hline⟩
  · refine ⟨tag ++ blanks ++ ['\r'], by simp, fun c hc => ?_⟩
    rcases List.mem_append.mp hc with hc | hc
    · exact hline c hc
    · exact .inr (by rw [List.mem_singleton.mp hc]; decide)

/-- Each backtick of the text is followed by a quote on its line. -/
def Sheltered : List Char → Prop
  | [] => True
  | c :: r => (c = '\x60' → '"' ∈ r.takeWhile (· != '\n')) ∧ Sheltered r

theorem Sheltered.append {s t : List Char} (hs : Sheltered s) (ht : Sheltered t) : Sheltered (s ++ t) := by
  induction s with
  | nil => exact ht
  | cons c s ih =>
    refine ⟨fun hc => ?_, ih hs.2⟩
    have hquote := hs.1 hc
    show '"' ∈ (s ++ t).takeWhile (· != '\n')
    rw [List.takeWhile_append]
    split
    · exact List.mem_append_left _ ((List.takeWhile_subset _) hquote)
    · exact hquote

/-- No block opens in a text whose backticks are sheltered. -/
theorem firstBlock?_eq_none {s : List Char} (h : Sheltered s) : firstBlock? s = none := by
  induction s with
  | nil => rfl
  | cons c s ih =>
    have hopen : afterOpening? (c :: s) = none := by
      cases hr : afterOpening? (c :: s) with
      | none => rfl
      | some r =>
        obtain ⟨opening, hopening, hs⟩ := afterOpening?_eq_some_iff.1 hr
        obtain ⟨line, rfl, hchars⟩ := hopening.exists_line
        have hq : '"' ∉ line := fun h => absurd (hchars _ h) (by decide)
        have hn : '\n' ∉ line := fun h => absurd (hchars _ h) (by decide)
        obtain ⟨rfl, rfl⟩ : c = '\x60' ∧ s = '\x60' :: '\x60' :: (line ++ '\n' :: r) := by simpa [fence] using hs
        have hline : line.takeWhile (· != '\n') = line :=
          List.takeWhile_eq_self_iff.2 fun d hd => bne_iff_ne.2 (ne_of_mem_of_not_mem hd hn)
        -- the quote that shelters the first backtick would stand in the opening line
        have hquote := h.1 rfl
        simp [List.takeWhile_append, hline, hq] at hquote
    rw [firstBlock?, blockHere?, hopen]
    exact ih h.2

/-! ### Texts in a block of their own -/

/-- The text as the body of a block with the tag `json`. -/
def fenced (s : List Char) : List Char := fence ++ ("json".toList ++ '\n' :: (s ++ '\n' :: fence))

theorem firstBlock?_fenced {s b : List Char} (h : before? fence (s ++ '\n' :: fence) = some b) :
    firstBlock? (fenced s) = some b := by
  have hopen : blockHere? (fenced s) = some b := h
  rw [fenced, fence] at hopen ⊢
  simp only [List.cons_append] at hopen ⊢
  rw [firstBlock?, hopen]

/-- Letters and digits are no white space. -/
theorem isBlank_of_isAlphanum {c : Char} (h : c.isAlphanum = true) : isBlank c = false := by
  have halpha : c.isAlpha = (c.isUpper || c.isLower) := rfl
  have hupper : c.isUpper = decide ('A' ≤ c ∧ c ≤ 'Z') := rfl
  have hlower : c.isLower = (decide ('a' ≤ c) && decide (c ≤ 'z')) := rfl
  have hdigit : c.isDigit = (decide ('0' ≤ c) && decide (c ≤ '9')) := rfl
  have hbounds : '!' ≤ c ∧ c ≤ 'z' := by
    simp only [Char.isAlphanum, halpha, hupper, hlower, hdigit, Bool.or_eq_true, Bool.and_eq_true,
      decide_eq_true_eq] at h
    rcases h with (h | h) | h
    all_goals exact ⟨Char.le_trans (by decide) h.1, Char.le_trans h.2 (by decide)⟩
  have hlow : '!'.val.toNat = 0x21 := rfl
  have hhigh : 'z'.val.toNat = 0x7a := rfl
  rw [Char.le_def, Char.le_def, UInt32.le_iff_toNat_le, UInt32.le_iff_toNat_le, hlow, hhigh] at hbounds
  simp only [isBlank, Bool.or_eq_false_iff, Bool.and_eq_false_iff, decide_eq_false_iff_not, beq_eq_false_iff_ne,
    ne_eq, ← UInt32.toNat_inj, UInt32.le_iff_toNat_le, UInt32.reduceToNat]
  omega

/-- A text that neither begins nor ends with white space. -/
structure Edged (s : List Char) : Prop where
  ne_nil : s ≠ []
  head : ∀ c ∈ s.head?, isBlank c = false
  last : ∀ c ∈ s.getLast?, isBlank c = false

theorem edged_of_ends {a b : Char} (ha : isBlank a = false) (hb : isBlank b = false) (m : List Char) :
    Edged (a :: (m ++ [b])) where
  ne_nil := by simp
  head := by simpa using ha
  last := by simpa [List.getLast?_cons] using hb

theorem Edged.append {s t : List Char} (ht : Edged t) (hne : s ≠ []) (hs : ∀ c ∈ s.head?, isBlank c = false) :
    Edged (s ++ t) where
  ne_nil := by simp [hne]
  head := by rwa [List.head?_append_of_ne_nil _ hne]
  last := by rw [List.getLast?_append_of_ne_nil _ ht.ne_nil]; exact ht.last

theorem dropBlank_of_head {s : List Char} (h : ∀ c ∈ s.head?, isBlank c = false) : dropBlank s = s := dropWhile_of_head h

theorem Edged.trimChars_append {s w : List Char} (h : Edged s) (hw : ∀ c ∈ w, isBlank c = true) :
    trimChars (s ++ w) = s := by
  have hfront : dropBlank (s ++ w) = s ++ w :=
    dropBlank_of_head fun c hc => h.head c (by rwa [List.head?_append_of_ne_nil _ h.ne_nil] at hc)
  have hback : dropBlank s.reverse = s.reverse :=
    dropBlank_of_head fun c hc => h.last c (by rwa [List.head?_reverse] at hc)
  rw [trimChars, hfront, dropWhileEnd, List.reverse_append,
    List.dropWhile_append_of_pos (by simpa using hw), ← dropBlank, hback, List.reverse_reverse]

theorem Edged.trimChars_eq {s : List Char} (h : Edged s) : trimChars s = s := by
  simpa using h.trimChars_append (w := []) (by simp)

theorem Edged.unfenced {s : List Char} (h : Edged s) (hs : Sheltered s) : Text.unfenced s = s := by
  rw [Text.unfenced, firstBlock?_eq_none hs]
  exact h.trimChars_eq

/-- A block gives back a text in which no three backticks stand together. -/
theorem Edged.unfenced_fenced {s : List Char} (h : Edged s) (hs : ¬ fence <:+: s) :
    Text.unfenced (fenced s) = s := by
  have hfirst : ¬ fence <:+: (s ++ ['\n']) ++ fence.dropLast := by
    rw [List.append_assoc, List.singleton_append, infix_append_cons_iff (by decide)]
    exact not_or.2 ⟨hs, by decide⟩
  have hbody : firstBlock? (fenced s) = some (s ++ ['\n']) :=
    firstBlock?_fenced (by simpa using before?_append hfirst [])
  rw [Text.unfenced, hbody]
  exact h.trimChars_append (by simp [isBlank])

/-- A block cuts off a text at the first three backticks that stand together in it. -/
theorem Edged.unfenced_fenced_cut {s : List Char} (h : Edged s) (hhead : s.head? ≠ some '\x60') (hs : fence <:+: s) :
    ∃ p q, s = p ++ q ∧ p ≠ [] ∧ q ≠ [] ∧ Text.unfenced (fenced s) = p := by
  obtain ⟨p, q, rfl, hb⟩ := exists_before? hs ('\n' :: fence)
  have hp : p ≠ [] := by
    rintro rfl
    exact hhead rfl
  have hfront : dropBlank p = p :=
    dropBlank_of_head fun c hc => h.head c (by rwa [List.head?_append_of_ne_nil _ hp])
  have htrim : Text.unfenced (fenced (p ++ (fence ++ q))) = p.rdropWhile isBlank := by
    rw [Text.unfenced, firstBlock?_fenced hb, Option.getD_some, trimChars, hfront]
    rfl
  refine ⟨p.rdropWhile isBlank, p.rtakeWhile isBlank ++ (fence ++ q), ?_, ?_, by simp [fence], htrim⟩
  · rw [← List.append_assoc (p.rdropWhile isBlank), List.rdropWhile_append_rtakeWhile]
  · rw [Ne, List.rdropWhile_eq_nil_iff]
    intro hblank
    obtain ⟨c, p, rfl⟩ := List.exists_cons_of_ne_nil hp
    have := h.head c rfl
    simp [hblank c List.mem_cons_self] at this

end ContractMigration.Text
