import ContractMigration.Text.Segments

/-! Where a piece of text stands in another one: at an end, somewhere, or behind the last separator. -/

namespace ContractMigration.Text

variable {pat s : List Char} {sep : Char}

theorem stripStart?_eq_some_iff {pat s r : List Char} : stripStart? pat s = some r ↔ s = pat ++ r := by
  induction pat generalizing s with
  | nil => simp [stripStart?]
  | cons c pat ih =>
    cases s with
    | nil => simp [stripStart?]
    | cons d s =>
      rw [stripStart?]
      split
      · next h => simp [ih, h]
      · next h => simp [Ne.symm h]

theorem startsWith_iff {pat s : List Char} : startsWith pat s = true ↔ pat <+: s := by
  rw [startsWith, Option.isSome_iff_exists]
  simp only [stripStart?_eq_some_iff]
  exact ⟨fun ⟨r, h⟩ => ⟨r, h.symm⟩, fun ⟨r, h⟩ => ⟨r, h.symm⟩⟩

theorem stripEnd?_eq_some_iff {suf r : List Char} : stripEnd? suf s = some r ↔ s = r ++ suf := by
  simp only [stripEnd?, Option.map_eq_some_iff, stripStart?_eq_some_iff]
  constructor
  · rintro ⟨t, ht, rfl⟩
    simpa using congrArg List.reverse ht
  · rintro rfl
    exact ⟨r.reverse, by simp, by simp⟩

theorem stripStart?_eq_none_iff : stripStart? pat s = none ↔ ¬pat <+: s := by
  rw [← startsWith_iff, startsWith, Bool.not_eq_true, Option.isSome_eq_false_iff, Option.isNone_iff_eq_none]

theorem endsWith_iff : endsWith pat s = true ↔ pat <:+ s := by
  rw [endsWith, Option.isSome_iff_exists]
  simp only [stripEnd?_eq_some_iff]
  exact ⟨fun ⟨r, h⟩ => ⟨r, h.symm⟩, fun ⟨r, h⟩ => ⟨r, h.symm⟩⟩

theorem stripEnd?_eq_none_iff : stripEnd? pat s = none ↔ ¬pat <:+ s := by
  rw [← endsWith_iff, endsWith, Bool.not_eq_true, Option.isSome_eq_false_iff, Option.isNone_iff_eq_none]

theorem contains_iff : contains pat s = true ↔ pat <:+: s := by
  induction s with
  | nil => simp [contains]
  | cons c s ih => simp [contains, startsWith_iff, ih, List.infix_cons_iff]

theorem segments_eq_splitOn (sep : Char) (s : List Char) : segments sep s = s.splitOn sep := by
  induction s with
  | nil => rw [segments, List.splitOn_nil]
  | cons c s ih =>
    rw [segments, List.splitOn_cons_eq_if_modifyHead, ih]
    by_cases hc : c = sep
    · simp [hc]
    · cases hs : s.splitOn sep with
      | nil => exact absurd hs (List.splitOn_ne_nil sep s)
      | cons t ts => simp [hc]

/-- The last piece of a text has no separator, and is the whole text or stands behind a separator. -/
theorem getLast?_segments {last : List Char} :
    (segments sep s).getLast? = some last ↔ sep ∉ last ∧ (s = last ∨ ∃ front, s = front ++ sep :: last) := by
  have whole : ∀ t : List Char, sep ∉ t → (segments sep t).getLast? = some t := by
    intro t ht
    rw [segments_eq_splitOn, List.splitOn_eq_singleton ht, List.getLast?_singleton]
  have behind : ∀ front t : List Char, sep ∉ t → (segments sep (front ++ sep :: t)).getLast? = some t := by
    intro front t ht
    rw [segments_eq_splitOn, List.splitOn_append_cons_self, List.splitOn_eq_singleton ht, List.getLast?_concat]
  constructor
  · intro h
    by_cases hs : sep ∈ s
    · -- the last separator is the first one from behind
      obtain ⟨a, b, hab, ha⟩ := List.eq_append_cons_of_mem (List.mem_reverse.2 hs)
      have hsplit : s = b.reverse ++ sep :: a.reverse := by simpa using congrArg List.reverse hab
      have ha' : sep ∉ a.reverse := by simpa using ha
      rw [hsplit, behind _ _ ha', Option.some.injEq] at h
      exact ⟨h ▸ ha', .inr ⟨b.reverse, h ▸ hsplit⟩⟩
    · rw [whole s hs, Option.some.injEq] at h
      exact ⟨h ▸ hs, .inl h⟩
  · rintro ⟨hlast, rfl | ⟨front, rfl⟩⟩
    · exact whole s hlast
    · exact behind front last hlast

end ContractMigration.Text
