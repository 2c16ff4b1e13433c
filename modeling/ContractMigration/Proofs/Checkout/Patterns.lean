import ContractMigration.Checkout.Glob
import Mathlib.Data.List.Forall2

/-! Which texts a pattern fits. Each sign of the pattern takes a run of the text, and the runs make up the text. For
beginnings of pattern and text this is decided by what the last sign takes, and in this way the table is filled: once it is
filled up to an entry, that one and all before it say which beginnings fit, and nothing holds behind it. No step on the way
leaves the table. -/

namespace ContractMigration.Glob

variable {signs pattern text : List Char} {sign c : Char}

/-- What a sign of a pattern may stand for. -/
inductive Takes : Char → List Char → Prop
  | star (run : List Char) : Takes '*' run
  | mark (c : Char) : Takes '?' [c]
  | self {c : Char} (hstar : c ≠ '*') (hmark : c ≠ '?') : Takes c [c]

/-- Each sign takes a run, and the runs in their order are the text. -/
def Fits (pattern text : List Char) : Prop := ∃ runs, List.Forall₂ Takes pattern runs ∧ runs.flatten = text

/-! ### The last sign -/

theorem takes_iff {run : List Char} (hstar : sign ≠ '*') : Takes sign run ↔ ∃ c, run = [c] ∧ (sign = '?' ∨ c = sign) := by
  constructor
  · rintro (run | c | ⟨-, -⟩)
    · exact absurd rfl hstar
    · exact ⟨c, rfl, .inl rfl⟩
    · exact ⟨sign, rfl, .inr rfl⟩
  · rintro ⟨c, rfl, hc⟩
    by_cases hmark : sign = '?'
    · exact hmark ▸ .mark c
    · obtain rfl := hc.resolve_left hmark
      exact .self hstar hmark

theorem fits_nil_iff : Fits [] text ↔ text = [] := by
  simp [Fits, eq_comm]

theorem fits_concat_iff :
    Fits (signs ++ [sign]) text ↔ ∃ front run, Fits signs front ∧ Takes sign run ∧ text = front ++ run := by
  constructor
  · rintro ⟨runs, hruns, rfl⟩
    have hfront := (List.forall₂_take_append _ _ _ hruns.flip).flip
    have hlast := (List.forall₂_drop_append _ _ _ hruns.flip).flip
    obtain ⟨run, rest, hrun, hrest, hdrop⟩ := List.forall₂_cons_left_iff.mp hlast
    obtain rfl := List.forall₂_nil_left_iff.mp hrest
    refine ⟨_, run, ⟨_, hfront, rfl⟩, hrun, ?_⟩
    rw [← List.flatten_concat, ← hdrop, List.take_append_drop]
  · rintro ⟨_, run, ⟨runs, hruns, rfl⟩, hrun, rfl⟩
    exact ⟨runs ++ [run], List.rel_append hruns (.cons hrun .nil), List.flatten_concat⟩

/-- A star at the end fits nothing, or the last character besides what it fits before. -/
theorem fits_star_iff : Fits (signs ++ ['*']) (text ++ [c]) ↔ Fits signs (text ++ [c]) ∨ Fits (signs ++ ['*']) text := by
  rw [fits_concat_iff, fits_concat_iff]
  constructor
  · rintro ⟨front, run, hfront, -, htext⟩
    rcases List.eq_nil_or_concat run with rfl | ⟨run, d, rfl⟩
    · rw [List.append_nil] at htext
      exact .inl (htext ▸ hfront)
    · rw [List.concat_eq_append, ← List.append_assoc] at htext
      exact .inr ⟨front, run, hfront, .star run, (List.append_inj' htext rfl).1⟩
  · rintro (h | ⟨front, run, hfront, -, rfl⟩)
    · exact ⟨_, [], h, .star [], (List.append_nil _).symm⟩
    · exact ⟨front, run ++ [c], hfront, .star _, List.append_assoc front run [c]⟩

/-- Any other sign at the end takes the last character. -/
theorem fits_sign_iff (hstar : sign ≠ '*') :
    Fits (signs ++ [sign]) (text ++ [c]) ↔ (sign = '?' ∨ c = sign) ∧ Fits signs text := by
  rw [fits_concat_iff]
  constructor
  · rintro ⟨front, run, hfront, hrun, htext⟩
    obtain ⟨d, rfl, hd⟩ := (takes_iff hstar).mp hrun
    obtain ⟨rfl, hcd⟩ := List.append_inj' htext rfl
    exact ⟨List.singleton_inj.mp hcd ▸ hd, hfront⟩
  · rintro ⟨hc, h⟩
    exact ⟨text, [c], h, (takes_iff hstar).mpr ⟨c, rfl, hc⟩, rfl⟩

/-- Nothing but stars fit the empty text. -/
theorem fits_empty_iff : Fits (signs ++ [sign]) [] ↔ sign = '*' ∧ Fits signs [] := by
  rw [fits_concat_iff]
  constructor
  · rintro ⟨front, run, hfront, hrun, htext⟩
    obtain ⟨rfl, rfl⟩ := List.append_eq_nil_iff.mp htext.symm
    refine ⟨?_, hfront⟩
    by_contra hstar
    obtain ⟨c, hc, -⟩ := (takes_iff hstar).mp hrun
    exact List.cons_ne_nil c [] hc.symm
  · rintro ⟨rfl, h⟩
    exact ⟨[], [], h, .star [], rfl⟩

/-! ### Entries of a table -/

namespace Table

variable {t : Table} {i j : Nat} {b : Bool}

theorem get?_blank {height width : Nat} (hi : i < height) (hj : j < width) : (blank height width).get? i j = some false := by
  simp [blank, get?, hi, hj]

/-- An entry that is there can be set, and every other one stays as it is. -/
theorem exists_set? (h : t.get? i j = some b) (v : Bool) :
    ∃ t', t.set? i j v = some t' ∧ ∀ k l, t'.get? k l = if k = i ∧ l = j then some v else t.get? k l := by
  obtain ⟨row, hrow, hj⟩ := Option.bind_eq_some_iff.mp h
  have hi : i < t.rows.size := (Array.getElem?_eq_some_iff.mp hrow).1
  have hj : j < row.size := (Array.getElem?_eq_some_iff.mp hj).1
  refine ⟨⟨t.rows.setIfInBounds i (row.setIfInBounds j v)⟩, ?_, fun k l => ?_⟩
  · simp only [set?, hrow, Option.bind_eq_bind, Option.bind_some, if_pos hj]
  · rw [get?, get?, Array.getElem?_setIfInBounds]
    by_cases hk : i = k
    · subst hk
      rw [if_pos rfl, if_pos hi, hrow, Option.bind_some, Option.bind_some, Array.getElem?_setIfInBounds]
      by_cases hl : j = l
      · simp [hl ▸ hj, hl]
      · simp [hl, Ne.symm hl]
    · rw [if_neg hk, if_neg fun hkl => hk hkl.1.symm]

end Table

/-! ### Filling the table -/

/-- The table is filled up to row `i` and column `j`: each entry up to there says whether the beginnings before it fit, and
the others do not hold. -/
def Filled (pattern text : List Char) (i j : Nat) (t : Table) : Prop :=
  ∀ k ≤ text.length, ∀ l ≤ pattern.length, ∃ b, t.get? k l = some b ∧
    (b = true ↔ (k < i ∨ (k = i ∧ l ≤ j)) ∧ Fits (pattern.take l) (text.take k))

variable {t : Table} {i j : Nat}

theorem Filled.exists_get? {k l : Nat} (h : Filled pattern text i j t) (hk : k ≤ text.length) (hl : l ≤ pattern.length)
    (hkl : k < i ∨ (k = i ∧ l ≤ j)) : ∃ b, t.get? k l = some b ∧ (b = true ↔ Fits (pattern.take l) (text.take k)) := by
  obtain ⟨b, hb, hfits⟩ := h k hk l hl
  exact ⟨b, hb, hfits.trans (and_iff_right hkl)⟩

/-- The next entry of the row is set to what it has to say. -/
theorem Filled.set? (h : Filled pattern text i j t) (hi : i ≤ text.length) (hj : j < pattern.length) {v : Bool}
    (hv : v = true ↔ Fits (pattern.take (j + 1)) (text.take i)) :
    ∃ t', t.set? i (j + 1) v = some t' ∧ Filled pattern text i (j + 1) t' := by
  obtain ⟨b, hb, -⟩ := h i hi (j + 1) hj
  obtain ⟨t', ht', hentries⟩ := Table.exists_set? hb v
  refine ⟨t', ht', fun k hk l hl => ?_⟩
  rw [hentries]
  by_cases hkl : k = i ∧ l = j + 1
  · obtain ⟨rfl, rfl⟩ := hkl
    exact ⟨v, if_pos ⟨rfl, rfl⟩, by simpa using hv⟩
  · obtain ⟨b, hb, hfits⟩ := h k hk l hl
    rw [if_neg hkl]
    refine ⟨b, hb, hfits.trans (and_congr_left' ?_)⟩
    omega

/-- The next entry of the row is left alone where nothing fits. -/
theorem Filled.skip (h : Filled pattern text i j t) (hnot : ¬Fits (pattern.take (j + 1)) (text.take i)) :
    Filled pattern text i (j + 1) t := by
  intro k hk l hl
  obtain ⟨b, hb, hfits⟩ := h k hk l hl
  refine ⟨b, hb, hfits.trans (and_congr_left fun hkl => ?_)⟩
  have hne : ¬(k = i ∧ l = j + 1) := by
    rintro ⟨rfl, rfl⟩
    exact hnot hkl
  omega

/-- A full row is where the next one begins: no pattern without signs fits a text that has a character. -/
theorem Filled.nextRow (h : Filled pattern text i pattern.length t) : Filled pattern text (i + 1) 0 t := by
  intro k hk l hl
  obtain ⟨b, hb, hfits⟩ := h k hk l hl
  refine ⟨b, hb, hfits.trans (and_congr_left fun hkl => ?_)⟩
  have hne : ¬(k = i + 1 ∧ l = 0) := by
    rintro ⟨rfl, rfl⟩
    rw [List.take_zero, fits_nil_iff, List.take_eq_nil_iff] at hkl
    rcases hkl with hzero | rfl
    · exact Nat.succ_ne_zero i hzero
    · exact Nat.not_succ_le_zero i hk
  omega

theorem exists_filled_blank (pattern text : List Char) :
    ∃ t, (Table.blank (text.length + 1) (pattern.length + 1)).set? 0 0 true = some t ∧ Filled pattern text 0 0 t := by
  have hblank : ∀ {k l}, k ≤ text.length → l ≤ pattern.length →
      (Table.blank (text.length + 1) (pattern.length + 1)).get? k l = some false := fun hk hl =>
    Table.get?_blank (Nat.lt_succ_of_le hk) (Nat.lt_succ_of_le hl)
  obtain ⟨t, ht, hentries⟩ := Table.exists_set? (hblank (Nat.zero_le _) (Nat.zero_le _)) true
  refine ⟨t, ht, fun k hk l hl => ?_⟩
  rw [hentries]
  by_cases hkl : k = 0 ∧ l = 0
  · obtain ⟨rfl, rfl⟩ := hkl
    exact ⟨true, if_pos ⟨rfl, rfl⟩, by simp [fits_nil_iff]⟩
  · rw [if_neg hkl]
    refine ⟨false, hblank hk hl, iff_of_false Bool.false_ne_true fun h => ?_⟩
    omega

theorem Filled.fillFirst? (h : Filled pattern text 0 j t) (hj : j < pattern.length) :
    ∃ t', Glob.fillFirst? pattern.toArray t j = some t' ∧ Filled pattern text 0 (j + 1) t' := by
  have hnext : Fits (pattern.take (j + 1)) (text.take 0) ↔ pattern[j] = '*' ∧ Fits (pattern.take j) (text.take 0) := by
    rw [List.take_succ_eq_append_getElem hj, List.take_zero, fits_empty_iff]
  simp only [Glob.fillFirst?, List.getElem?_toArray, List.getElem?_eq_getElem hj, Option.bind_eq_bind, Option.bind_some]
  split_ifs with hstar
  · obtain ⟨b, hb, hfits⟩ := h.exists_get? (Nat.zero_le _) (Nat.le_of_lt hj) (.inr ⟨rfl, Nat.le_refl j⟩)
    rw [hb, Option.bind_some]
    exact h.set? (Nat.zero_le _) hj (by rw [hnext, and_iff_right hstar, hfits])
  · exact ⟨t, rfl, h.skip fun hkl => hstar (hnext.mp hkl).1⟩

theorem Filled.fill? (h : Filled pattern text (i + 1) j t) (hi : i < text.length) (hj : j < pattern.length) :
    ∃ t', Glob.fill? pattern.toArray text.toArray i t j = some t' ∧ Filled pattern text (i + 1) (j + 1) t' := by
  have hsigns := List.take_succ_eq_append_getElem hj
  have htext := List.take_succ_eq_append_getElem hi
  simp only [Glob.fill?, List.getElem?_toArray, List.getElem?_eq_getElem hj, List.getElem?_eq_getElem hi,
    Option.bind_eq_bind, Option.bind_some]
  split_ifs with hstar hsign
  · -- the star stays behind the character or takes it: the entries to the left and above
    obtain ⟨left, hleft, hfitsLeft⟩ := h.exists_get? (l := j) hi (Nat.le_of_lt hj) (.inr ⟨rfl, Nat.le_refl j⟩)
    obtain ⟨above, habove, hfitsAbove⟩ := h.exists_get? (l := j + 1) (Nat.le_of_lt hi) hj (.inl (Nat.lt_succ_self i))
    rw [hleft, Option.bind_some, habove, Option.bind_some]
    refine h.set? hi hj ?_
    rw [Bool.or_eq_true, hfitsLeft, hfitsAbove, hsigns, htext, hstar, fits_star_iff]
  · obtain ⟨b, hb, hfits⟩ := h.exists_get? (l := j) (Nat.le_of_lt hi) (Nat.le_of_lt hj) (.inl (Nat.lt_succ_self i))
    rw [hb, Option.bind_some]
    refine h.set? hi hj ?_
    rw [hfits, hsigns, htext, fits_sign_iff hstar, and_iff_right hsign]
  · refine ⟨t, rfl, h.skip fun hfits => hsign ?_⟩
    rw [hsigns, htext, fits_sign_iff hstar] at hfits
    exact hfits.1

/-- What every step of a loop over numbers establishes for the next one holds when the loop has ended. -/
theorem exists_foldlM_range {σ : Type} {f : σ → Nat → Option σ} {n : Nat} (holds : Nat → σ → Prop)
    (hstep : ∀ k < n, ∀ s, holds k s → ∃ s', f s k = some s' ∧ holds (k + 1) s') {s : σ} (h : holds 0 s) :
    ∃ s', (List.range n).foldlM f s = some s' ∧ holds n s' := by
  induction n with
  | zero => exact ⟨s, rfl, h⟩
  | succ n ih =>
    obtain ⟨s', hs', h'⟩ := ih fun k hk => hstep k (Nat.lt_succ_of_lt hk)
    obtain ⟨s'', hs'', h''⟩ := hstep n (Nat.lt_succ_self n) s' h'
    refine ⟨s'', ?_, h''⟩
    rw [List.range_succ, List.foldlM_append, hs', Option.bind_eq_bind, Option.bind_some, List.foldlM_cons, hs'']
    rfl

theorem Filled.fillRow? (h : Filled pattern text i pattern.length t) (hi : i < text.length) :
    ∃ t', Glob.fillRow? pattern.toArray text.toArray t i = some t' ∧ Filled pattern text (i + 1) pattern.length t' := by
  rw [Glob.fillRow?, List.size_toArray]
  exact exists_foldlM_range (Filled pattern text (i + 1)) (fun j hj t ht => ht.fill? hi hj) h.nextRow

/-- The table is never left, and its last entry says whether the pattern fits the text. -/
theorem exists_fits? (pattern text : List Char) : ∃ b, fits? pattern text = some b ∧ (b = true ↔ Fits pattern text) := by
  obtain ⟨t₀, ht₀, h₀⟩ := exists_filled_blank pattern text
  obtain ⟨t₁, ht₁, h₁⟩ := exists_foldlM_range (Filled pattern text 0) (fun j hj t ht => ht.fillFirst? hj) h₀
  obtain ⟨t₂, ht₂, h₂⟩ := exists_foldlM_range (fun i => Filled pattern text i pattern.length)
    (fun i hi t ht => ht.fillRow? hi) h₁
  obtain ⟨b, hb, hfits⟩ := h₂.exists_get? (Nat.le_refl text.length) (Nat.le_refl pattern.length) (.inr ⟨rfl, Nat.le_refl _⟩)
  rw [List.take_length, List.take_length] at hfits
  refine ⟨b, ?_, hfits⟩
  simp only [fits?, List.size_toArray, Option.bind_eq_bind, ht₀, ht₁, ht₂, Option.bind_some, hb]

/-- For every pattern and every text there is an answer, and it is yes exactly if the pattern fits the text. -/
theorem decides_fits (pattern text : List Char) :
    fits? pattern text ≠ none ∧ (fits? pattern text = some true ↔ Fits pattern text) := by
  obtain ⟨b, hb, hfits⟩ := exists_fits? pattern text
  rw [hb, Option.some.injEq]
  exact ⟨Option.some_ne_none b, hfits⟩

/-- Two stars side by side, one of them for nothing, and a sign too many. -/
example : fits? "**.?em".toList "a.pem".toList = some true ∧ fits? "*.pem?".toList "a.pem".toList = some false := by
  decide

/-- A file is left out for its name if one of the patterns fits the name in lower case. -/
theorem isSensitive_iff (name : String) :
    isSensitive name = true ↔ ∃ p ∈ sensitivePatterns, Fits p.toList (name.toList.map lower) := by
  rw [isSensitive, List.any_eq_true]
  refine exists_congr fun p => and_congr_right fun _ => ?_
  obtain ⟨b, hb, hfits⟩ := exists_fits? p.toList (name.toList.map lower)
  rw [hb, beq_iff_eq, Option.some.injEq, hfits]

end ContractMigration.Glob
