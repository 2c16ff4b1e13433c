import ContractMigration.Proofs.Text.Affixes
import ContractMigration.Text.Blank
import Mathlib.Data.List.DropRight

/-! Texts cut into pieces, and texts cut off at both ends. Pieces without the separator are read back from their join, and
every text is the join of its pieces. What is cut off at the ends leaves a text that neither begins nor ends with such a
character; where the separator itself is cut off, only empty pieces are lost. -/

namespace ContractMigration.Text

variable {sep : Char} {s t : List Char} {ss : List (List Char)}

/-! ### Pieces -/

theorem joinWith_eq_intercalate (sep : List Char) (ss : List (List Char)) : joinWith sep ss = sep.intercalate ss := by
  induction ss with
  | nil => rfl
  | cons s ss ih =>
    cases ss with
    | nil => simp [joinWith]
    | cons t ss => rw [joinWith, ih, List.intercalate_cons_cons]

theorem joinWith_cons_cons (sep s t : List Char) (ss : List (List Char)) :
    joinWith sep (s :: t :: ss) = s ++ sep ++ joinWith sep (t :: ss) := rfl

/-- Two pieces in front that are joined already. -/
theorem joinWith_append_cons (sep s t : List Char) (ss : List (List Char)) :
    joinWith sep ((s ++ sep ++ t) :: ss) = joinWith sep (s :: t :: ss) := by
  cases ss <;> simp [joinWith]

theorem joinWith_segments (sep : Char) (s : List Char) : joinWith [sep] (segments sep s) = s := by
  rw [joinWith_eq_intercalate, segments_eq_splitOn, List.intercalate_splitOn]

theorem segments_joinWith (hss : ∀ s ∈ ss, sep ∉ s) (hne : ss ≠ []) : segments sep (joinWith [sep] ss) = ss := by
  rw [joinWith_eq_intercalate, segments_eq_splitOn, List.splitOn_intercalate sep hss hne]

theorem segments_ne_nil (sep : Char) (s : List Char) : segments sep s ≠ [] := by
  rw [segments_eq_splitOn]
  exact List.splitOn_ne_nil sep s

theorem exists_segments_eq_concat (sep : Char) (s : List Char) : ∃ front last, segments sep s = front ++ [last] :=
  ⟨_, _, (List.dropLast_concat_getLast (segments_ne_nil sep s)).symm⟩

theorem segments_append_cons (sep : Char) (s t : List Char) :
    segments sep (s ++ sep :: t) = segments sep s ++ segments sep t := by
  simp only [segments_eq_splitOn, List.splitOn_append_cons_self]

/-- The pieces of a join are those of what is joined. -/
theorem segments_joinWith_flatMap (sep : Char) (hne : ss ≠ []) :
    segments sep (joinWith [sep] ss) = ss.flatMap (segments sep) := by
  induction ss with
  | nil => exact absurd rfl hne
  | cons s ss ih =>
    cases ss with
    | nil => simp [joinWith]
    | cons t ss =>
      rw [joinWith_cons_cons, List.append_assoc, List.singleton_append, segments_append_cons, ih (List.cons_ne_nil t ss)]
      rfl

theorem segments_cons_self (sep : Char) (s : List Char) : segments sep (sep :: s) = [] :: segments sep s := by
  rw [segments, if_pos rfl]

theorem notMem_of_mem_segments (h : t ∈ segments sep s) : sep ∉ t := by
  induction s generalizing t with
  | nil => simp_all [segments]
  | cons c s ih =>
    by_cases hc : c = sep
    · rw [hc, segments_cons_self, List.mem_cons] at h
      rcases h with rfl | h
      · exact List.not_mem_nil
      · exact ih h
    · rw [segments, if_neg hc] at h
      split at h
      · simpa [List.mem_singleton.mp h] using Ne.symm hc
      · next u us hus =>
        rcases List.mem_cons.mp h with rfl | h
        · exact List.not_mem_cons_of_ne_of_not_mem (Ne.symm hc) (ih (hus ▸ List.mem_cons_self))
        · exact ih (hus ▸ List.mem_cons_of_mem u h)

/-! ### Another separator -/

theorem notMem_replaceChar {a b : Char} (h : a ≠ b) (s : List Char) : a ∉ replaceChar a b s := by
  rw [replaceChar, List.mem_map]
  rintro ⟨c, -, hc⟩
  split_ifs at hc with hca
  · exact h hc.symm
  · exact hca hc

theorem replaceChar_of_notMem {a b : Char} (h : a ∉ s) : replaceChar a b s = s := by
  have hid : s.map (fun c => if c = a then b else c) = s.map id :=
    List.map_congr_left fun c hc => if_neg (ne_of_mem_of_not_mem hc h)
  rw [replaceChar, hid, List.map_id]

theorem replaceChar_append (a b : Char) (s t : List Char) :
    replaceChar a b (s ++ t) = replaceChar a b s ++ replaceChar a b t := List.map_append

theorem replaceChar_joinWith (a b : Char) (sep : List Char) (ss : List (List Char)) :
    replaceChar a b (joinWith sep ss) = joinWith (replaceChar a b sep) (ss.map (replaceChar a b)) := by
  induction ss with
  | nil => rfl
  | cons s ss ih =>
    cases ss with
    | nil => rfl
    | cons t ss =>
      rw [joinWith_cons_cons, replaceChar_append, replaceChar_append, ih]
      rfl

/-- Where the new separator did not occur, it parts the pieces that the old one parted. -/
theorem segments_replaceChar {a b : Char} (h : b ∉ s) : segments b (replaceChar a b s) = segments a s := by
  induction s with
  | nil => rfl
  | cons c s ih =>
    obtain ⟨hcb, hs⟩ := not_or.mp (mt List.mem_cons.mpr h)
    have hcons : replaceChar a b (c :: s) = (if c = a then b else c) :: replaceChar a b s := rfl
    rw [hcons, segments, segments, ih hs]
    by_cases hca : c = a
    · rw [if_pos hca, if_pos rfl, if_pos hca]
    · rw [if_neg hca, if_neg (Ne.symm hcb), if_neg hca]

/-! ### Ends -/

section
variable {p : Char → Bool} {front back : List Char}

/-- A text is what is cut off in front, what is left, and what is cut off behind. -/
theorem exists_trimmed (p : Char → Bool) (s : List Char) : ∃ front back, s = front ++ trimWhere p s ++ back ∧
    (∀ c ∈ front, p c = true) ∧ ∀ c ∈ back, p c = true := by
  refine ⟨s.takeWhile p, ((s.dropWhile p).reverse.takeWhile p).reverse, ?_, fun _ => List.mem_takeWhile_imp,
    fun _ hc => List.mem_takeWhile_imp (List.mem_reverse.mp hc)⟩
  rw [trimWhere, List.append_assoc, ← List.reverse_append, List.takeWhile_append_dropWhile, List.reverse_reverse,
    List.takeWhile_append_dropWhile]

theorem dropWhile_of_head (h : ∀ c ∈ s.head?, p c = false) : s.dropWhile p = s := by
  cases s with
  | nil => rfl
  | cons c s => rw [List.dropWhile_cons_of_neg (by simp [h c rfl])]

theorem head?_dropWhile : ∀ c ∈ (s.dropWhile p).head?, p c = false := by
  intro c hc
  have hnot := List.head?_dropWhile_not p s
  rw [Option.mem_def.mp hc] at hnot
  exact hnot

theorem getLast?_trimWhere : ∀ c ∈ (trimWhere p s).getLast?, p c = false := by
  rw [trimWhere, List.getLast?_reverse]
  exact head?_dropWhile

/-- What is left begins like the text without what is cut off in front. -/
theorem head?_trimWhere : ∀ c ∈ (trimWhere p s).head?, p c = false := by
  intro c hc
  obtain ⟨back, hback⟩ : trimWhere p s <+: s.dropWhile p := List.rdropWhile_prefix p (s.dropWhile p)
  refine head?_dropWhile (s := s) c ?_
  rw [← hback, List.head?_append, Option.mem_def.mp hc]
  rfl

/-- What is between characters that are cut off is left, if it neither begins nor ends with such a character. -/
theorem trimWhere_append (hfront : ∀ c ∈ front, p c = true) (hback : ∀ c ∈ back, p c = true)
    (hhead : ∀ c ∈ s.head?, p c = false) (hlast : ∀ c ∈ s.getLast?, p c = false) :
    trimWhere p (front ++ s ++ back) = s := by
  rw [trimWhere, List.append_assoc, List.dropWhile_append_of_pos hfront]
  cases s with
  | nil => simp [List.dropWhile_eq_nil_iff.mpr hback]
  | cons c s =>
    rw [dropWhile_of_head (s := c :: s ++ back) (by simpa using hhead), List.reverse_append,
      List.dropWhile_append_of_pos (by simpa using hback), dropWhile_of_head (by simpa only [List.head?_reverse] using hlast),
      List.reverse_reverse]

/-- More characters that are cut off at the ends make no difference. -/
theorem trimWhere_between (hfront : ∀ c ∈ front, p c = true) (hback : ∀ c ∈ back, p c = true) (s : List Char) :
    trimWhere p (front ++ s ++ back) = trimWhere p s := by
  obtain ⟨front', back', hs, hfront', hback'⟩ := exists_trimmed p s
  have houter : front ++ s ++ back = front ++ front' ++ trimWhere p s ++ (back' ++ back) := by
    conv_lhs => rw [hs]
    simp only [List.append_assoc]
  rw [houter]
  exact trimWhere_append (fun c hc => (List.mem_append.mp hc).elim (hfront c) (hfront' c))
    (fun c hc => (List.mem_append.mp hc).elim (hback' c) (hback c)) head?_trimWhere getLast?_trimWhere

theorem dropWhileEnd_of_last (h : ∀ c ∈ s.getLast?, p c = false) : dropWhileEnd p s = s := by
  rw [dropWhileEnd, dropWhile_of_head (by simpa only [List.head?_reverse] using h), List.reverse_reverse]

theorem dropWhileEnd_append_of_all (hback : ∀ c ∈ back, p c = true) (s : List Char) :
    dropWhileEnd p (s ++ back) = dropWhileEnd p s := by
  rw [dropWhileEnd, List.reverse_append, List.dropWhile_append_of_pos (by simpa using hback)]
  rfl

theorem exists_dropWhileEnd (p : Char → Bool) (s : List Char) :
    ∃ back, s = dropWhileEnd p s ++ back ∧ ∀ c ∈ back, p c = true :=
  ⟨s.rtakeWhile p, List.rdropWhile_append_rtakeWhile.symm, fun _ => List.mem_rtakeWhile_imp⟩

/-- What ends in a character that is not cut off stays, and so does all in front of it. -/
theorem dropWhileEnd_append (h : ∀ c ∈ s.getLast?, p c = false) (t : List Char) :
    dropWhileEnd p (s ++ t) = s ++ dropWhileEnd p t := by
  have hconcat : ∀ u c, dropWhileEnd p (u ++ [c]) = if p c then dropWhileEnd p u else u ++ [c] := List.rdropWhile_concat p
  induction t using List.reverseRecOn with
  | nil => rw [List.append_nil, dropWhileEnd_of_last h]; exact (List.append_nil s).symm
  | append_singleton t c ih =>
    rw [← List.append_assoc, hconcat, hconcat, ih]
    split_ifs
    · rfl
    · rw [List.append_assoc]

end

theorem cutAt?_eq_some_iff {a b : List Char} : cutAt? sep s = some (a, b) ↔ s = a ++ sep :: b ∧ sep ∉ a := by
  induction s generalizing a with
  | nil => simp [cutAt?]
  | cons d s ih =>
    rw [cutAt?]
    split_ifs with hd
    · subst hd
      constructor
      · rintro ⟨⟩
        exact ⟨rfl, List.not_mem_nil⟩
      · rintro ⟨hs, ha⟩
        cases a with
        | nil => simp_all
        | cons e a => simp_all
    · rw [Option.map_eq_some_iff]
      constructor
      · rintro ⟨⟨a', b'⟩, hcut, heq⟩
        obtain ⟨rfl, rfl⟩ := Prod.mk.inj heq
        obtain ⟨rfl, ha⟩ := ih.mp hcut
        exact ⟨rfl, List.not_mem_cons_of_ne_of_not_mem (Ne.symm hd) ha⟩
      · rintro ⟨hs, ha⟩
        cases a with
        | nil => exact absurd (List.cons.inj hs).1 hd
        | cons e a =>
          obtain ⟨rfl, htail⟩ := List.cons.inj hs
          exact ⟨(a, b), ih.mpr ⟨htail, List.not_mem_of_not_mem_cons ha⟩, rfl⟩

/-! ### Pieces that are not empty -/

/-- The pieces of a text that are not empty. -/
def parts (sep : Char) (s : List Char) : List (List Char) := (segments sep s).filter fun t => !t.isEmpty

theorem mem_parts : t ∈ parts sep s ↔ t ∈ segments sep s ∧ t ≠ [] := by
  simp [parts]

theorem parts_append_cons (sep : Char) (s t : List Char) : parts sep (s ++ sep :: t) = parts sep s ++ parts sep t := by
  rw [parts, segments_append_cons, List.filter_append]
  rfl

/-- Separators in front of a text add only empty pieces. -/
theorem parts_append_left {front : List Char} (h : ∀ c ∈ front, c = sep) (s : List Char) : parts sep (front ++ s) = parts sep s := by
  induction front with
  | nil => rfl
  | cons c front ih =>
    obtain ⟨rfl, h⟩ := List.forall_mem_cons.mp h
    rw [List.cons_append, ← ih h]
    exact parts_append_cons c [] (front ++ s)

/-- Separators behind a text add only empty pieces. -/
theorem parts_append_right {back : List Char} (h : ∀ c ∈ back, c = sep) (s : List Char) : parts sep (s ++ back) = parts sep s := by
  cases back with
  | nil => rw [List.append_nil]
  | cons c back =>
    obtain ⟨rfl, h⟩ := List.forall_mem_cons.mp h
    rw [parts_append_cons, ← List.append_nil back, parts_append_left h]
    exact List.append_nil _

theorem parts_trimWhere (sep : Char) (s : List Char) : parts sep (trimWhere (· == sep) s) = parts sep s := by
  obtain ⟨front, back, hs, hfront, hback⟩ := exists_trimmed (· == sep) s
  simp only [beq_iff_eq] at hfront hback
  conv_rhs => rw [hs, parts_append_right hback, parts_append_left hfront]

end ContractMigration.Text
