import ContractMigration.Checkout.Host
import ContractMigration.Proofs.Repository.Spelling
import Mathlib.Data.List.Chain

/-! The key of a checkout, made from the name of its directory. Key characters but the hyphen stay, whatever stands between
two of them becomes one hyphen, and hyphens and dots at the ends are cut off. What is left is a segment of a key for every
name, and the names that stay as they are are those which have this form already. -/

namespace ContractMigration

namespace Key

variable {s out raw : List Char} {c : Char}

/-- Key characters, and no two hyphens in a row. -/
structure Collapsed (s : List Char) : Prop where
  keyChars : ∀ c ∈ s, isKeyChar c = true
  single : s.IsChain fun a b => ¬(a = '-' ∧ b = '-')

/-- The form to which names are brought. -/
structure Derived (s : List Char) : Prop extends Collapsed s where
  ne_nil : s ≠ []
  head : ∀ c ∈ s.head?, c ≠ '-' ∧ c ≠ '.'
  last : ∀ c ∈ s.getLast?, c ≠ '-' ∧ c ≠ '.'

theorem Derived.isSegment (h : Derived s) : isSegment s = true := by
  refine isSegment_iff.mpr ⟨h.ne_nil, ?_, ?_, h.keyChars⟩
  · rintro rfl
    exact (h.head '.' rfl).2 rfl
  · rintro rfl
    exact (h.head '.' rfl).2 rfl

/-! ### One character after the other -/

theorem addToSegment_eq (out : List Char) (c : Char) : addToSegment out c =
    if isKeyChar c = true ∧ c ≠ '-' then out ++ [c] else if out.getLast? = some '-' then out else out ++ ['-'] := by
  have hkept : (c.isAlphanum || c == '_' || c == '.') = true ↔ isKeyChar c = true ∧ c ≠ '-' := by
    by_cases hc : c = '-'
    · subst hc
      decide
    · simp [isKeyChar, hc]
  simp only [addToSegment, hkept, beq_iff_eq]

theorem collapsed_nil : Collapsed [] := ⟨fun _ => nofun, .nil⟩

theorem Collapsed.concat (h : Collapsed out) (hc : isKeyChar c = true) (hout : ¬(out.getLast? = some '-' ∧ c = '-')) :
    Collapsed (out ++ [c]) := by
  refine ⟨fun d hd => ?_, List.isChain_append.mpr ⟨h.single, .singleton c, fun a ha b hb => ?_⟩⟩
  · rcases List.mem_append.mp hd with hd | hd
    · exact h.keyChars d hd
    · exact List.mem_singleton.mp hd ▸ hc
  · rintro ⟨rfl, rfl⟩
    exact hout ⟨ha, Option.some.inj hb⟩

theorem Collapsed.add (h : Collapsed out) (c : Char) : Collapsed (addToSegment out c) := by
  rw [addToSegment_eq]
  split_ifs with hkept hlast
  · exact h.concat hkept.1 fun hboth => hkept.2 hboth.2
  · exact h
  · exact h.concat (by decide) fun hboth => hlast hboth.1

theorem Collapsed.foldl (h : Collapsed out) (raw : List Char) : Collapsed (raw.foldl addToSegment out) := by
  induction raw generalizing out with
  | nil => exact h
  | cons c raw ih => exact ih (h.add c)

theorem Collapsed.of_append {front back : List Char} (h : Collapsed (front ++ s ++ back)) : Collapsed s :=
  ⟨fun c hc => h.keyChars c (by simp [hc]), h.single.left_of_append.right_of_append⟩

/-- What is collapsed already is added as it is. -/
theorem foldl_of_collapsed (h : Collapsed (out ++ raw)) : raw.foldl addToSegment out = out ++ raw := by
  induction raw generalizing out with
  | nil => exact (List.append_nil out).symm
  | cons c raw ih =>
    have hstep : addToSegment out c = out ++ [c] := by
      rw [addToSegment_eq]
      split_ifs with hkept hlast
      · rfl
      · have hc : c = '-' := by simpa [h.keyChars c (by simp)] using hkept
        exact absurd ⟨rfl, hc⟩ ((List.isChain_append.mp h.single).2.2 '-' hlast c rfl)
      · have hc : c = '-' := by simpa [h.keyChars c (by simp)] using hkept
        rw [hc]
    rw [List.append_cons] at h ⊢
    rw [List.foldl_cons, hstep]
    exact ih h

/-! ### Ends -/

/-- Characters that are cut off at the ends. -/
def isEdge (c : Char) : Bool := c == '-' || c == '.'

theorem isEdge_eq_false_iff : isEdge c = false ↔ c ≠ '-' ∧ c ≠ '.' := by
  simp [isEdge]

theorem segmentOf_eq (raw : List Char) : segmentOf raw =
    if Text.trimWhere isEdge (raw.foldl addToSegment []) = [] then "repository".toList
    else Text.trimWhere isEdge (raw.foldl addToSegment []) := by
  simp only [segmentOf, List.isEmpty_iff]
  rfl

theorem derived_repository : Derived "repository".toList where
  keyChars := List.all_eq_true.mp (by decide)
  single := by decide
  ne_nil := by decide
  head := fun c hc => by
    obtain rfl : 'r' = c := Option.some.inj hc
    decide
  last := fun c hc => by
    obtain rfl : 'y' = c := Option.some.inj hc
    decide

theorem derived_segmentOf (raw : List Char) : Derived (segmentOf raw) := by
  rw [segmentOf_eq]
  split_ifs with hempty
  · exact derived_repository
  · obtain ⟨front, back, hs, -, -⟩ := Text.exists_trimmed isEdge (raw.foldl addToSegment [])
    have hcollapsed : Collapsed (front ++ Text.trimWhere isEdge (raw.foldl addToSegment []) ++ back) :=
      hs ▸ collapsed_nil.foldl raw
    exact { hcollapsed.of_append with
      ne_nil := hempty
      head := fun c hc => isEdge_eq_false_iff.mp (Text.head?_trimWhere c hc)
      last := fun c hc => isEdge_eq_false_iff.mp (Text.getLast?_trimWhere c hc) }

theorem segmentOf_of_derived (h : Derived raw) : segmentOf raw = raw := by
  have hfold : raw.foldl addToSegment [] = raw := foldl_of_collapsed h.toCollapsed
  have htrim : Text.trimWhere isEdge ([] ++ raw ++ []) = raw :=
    Text.trimWhere_append (fun _ => nofun) (fun _ => nofun) (fun c hc => isEdge_eq_false_iff.mpr (h.head c hc))
      fun c hc => isEdge_eq_false_iff.mpr (h.last c hc)
  rw [List.append_nil, List.nil_append] at htrim
  rw [segmentOf_eq, hfold, htrim, if_neg h.ne_nil]

/-! ### What stays of a name -/

/-- Letters, digits and underscores, which stay wherever they stand. -/
def isWordChar (c : Char) : Bool := c.isAlphanum || c == '_'

theorem isWordChar_eq_false_of_isEdge (h : isEdge c = true) : isWordChar c = false := by
  rw [isEdge, Bool.or_eq_true, beq_iff_eq, beq_iff_eq] at h
  rcases h with rfl | rfl <;> decide

theorem filter_of_edges (h : ∀ c ∈ s, isEdge c = true) : s.filter isWordChar = [] :=
  List.filter_eq_nil_iff.mpr fun c hc => by simp [isWordChar_eq_false_of_isEdge (h c hc)]

theorem filter_addToSegment (out : List Char) (c : Char) :
    (addToSegment out c).filter isWordChar = out.filter isWordChar ++ [c].filter isWordChar := by
  have hnot : ¬(isKeyChar c = true ∧ c ≠ '-') → [c].filter isWordChar = [] := by
    intro h
    refine List.filter_eq_nil_iff.mpr fun d hd hword => ?_
    obtain rfl := List.mem_singleton.mp hd
    refine h ⟨?_, ?_⟩
    · rw [isWordChar, Bool.or_eq_true] at hword
      rcases hword with hword | hword <;> simp [isKeyChar, hword]
    · rintro rfl
      exact absurd hword (by decide)
  rw [addToSegment_eq]
  split_ifs with hkept hlast
  · exact List.filter_append ..
  · rw [hnot hkept, List.append_nil]
  · rw [hnot hkept, List.filter_append]
    rfl

theorem filter_foldl (out raw : List Char) :
    (raw.foldl addToSegment out).filter isWordChar = out.filter isWordChar ++ raw.filter isWordChar := by
  induction raw generalizing out with
  | nil => exact (List.append_nil _).symm
  | cons c raw ih =>
    rw [List.foldl_cons, ih, filter_addToSegment, List.append_assoc, ← List.filter_append]
    rfl

theorem isEdge_of_mem_foldl (hraw : raw.filter isWordChar = []) (hc : c ∈ raw.foldl addToSegment []) : isEdge c = true := by
  have hkey := (collapsed_nil.foldl raw).keyChars c hc
  have hword : isWordChar c = false := by
    rw [← Bool.not_eq_true]
    intro h
    have hmem := List.mem_filter.mpr ⟨hc, h⟩
    rw [filter_foldl, hraw] at hmem
    exact List.not_mem_nil hmem
  rw [isWordChar, Bool.or_eq_false_iff] at hword
  simpa [isKeyChar, isEdge, hword.1, hword.2] using hkey

/-- The word characters of a name stay, in their order; a name that has none is replaced as a whole. -/
theorem filter_segmentOf (raw : List Char) : (segmentOf raw).filter isWordChar =
    if raw.filter isWordChar = [] then "repository".toList else raw.filter isWordChar := by
  obtain ⟨front, back, hs, hfront, hback⟩ := Text.exists_trimmed isEdge (raw.foldl addToSegment [])
  have htrim : (Text.trimWhere isEdge (raw.foldl addToSegment [])).filter isWordChar = raw.filter isWordChar := by
    have hfold := filter_foldl [] raw
    rw [hs, List.filter_append, List.filter_append, filter_of_edges hfront, filter_of_edges hback] at hfold
    simpa using hfold
  rw [segmentOf_eq]
  split_ifs with hempty hnone hnone
  · decide
  · rw [hempty] at htrim
    exact absurd htrim.symm hnone
  · -- Without word characters, all that was collected is cut off, but something is left.
    obtain ⟨c, hc⟩ := Option.ne_none_iff_exists'.mp (mt List.head?_eq_none_iff.mp hempty)
    have hmem : c ∈ raw.foldl addToSegment [] := by
      rw [hs]
      exact List.mem_append_left back (List.mem_append_right front (List.mem_of_head? hc))
    have hedge := isEdge_of_mem_foldl hnone hmem
    rw [Text.head?_trimWhere c hc] at hedge
    cases hedge
  · exact htrim

end Key

namespace Checkout

/-- The name of the directory of a checkout: that of its place, or the last name of its path where there is no such place. -/
def directoryName? (c : Checkout) (f : Files) : Option String :=
  match f.locate c.root with
  | .ok p => p.getLast?
  | .error _ => fileName? c.root

/-- A name is brought to the form of a segment, without hyphens in a row and without hyphens and dots at its ends, and all
its word characters stay. Names in this form are those that stay as they are, so that nothing changes when it is done again.
With every name a key can be made, and a checkout lacks a key only if its directory has no name. -/
theorem defaultKey_derived (raw : List Char) :
    (Key.segmentOf raw ≠ [] ∧ Key.isSegment (Key.segmentOf raw) = true ∧ ¬['-', '-'] <:+: Key.segmentOf raw ∧
      ∀ c ∈ ['-', '.'], (Key.segmentOf raw).head? ≠ some c ∧ (Key.segmentOf raw).getLast? ≠ some c) ∧
    Key.segmentOf (Key.segmentOf raw) = Key.segmentOf raw ∧ (Key.segmentOf raw = raw ↔ Key.Derived raw) ∧
    (Key.segmentOf raw).filter Key.isWordChar =
      (if raw.filter Key.isWordChar = [] then "repository".toList else raw.filter Key.isWordChar) ∧
    Key.ofParts "local" (String.ofList (Key.segmentOf raw)) = .ok ⟨"local", String.ofList (Key.segmentOf raw)⟩ ∧
    ∀ (c : Checkout) (f : Files), c.defaultKey f = match c.directoryName? f with
      | none => .error (.invalidRepository c.root)
      | some name => .ok ⟨"local", String.ofList (Key.segmentOf name.toList)⟩ := by
  have hlocal : ∀ raw, Key.ofParts "local" (String.ofList (Key.segmentOf raw)) =
      .ok ⟨"local", String.ofList (Key.segmentOf raw)⟩ := by
    intro raw
    refine Key.ofParts_eq_ok_iff.mpr ⟨by decide, ?_, rfl⟩
    rw [String.toList_ofList]
    exact (Key.derived_segmentOf raw).isSegment
  have hderived := Key.derived_segmentOf raw
  refine ⟨⟨hderived.ne_nil, hderived.isSegment, fun hdouble => ?_, ?_⟩, Key.segmentOf_of_derived hderived,
    ⟨fun h => h ▸ hderived, Key.segmentOf_of_derived⟩, Key.filter_segmentOf raw, hlocal raw, fun c f => ?_⟩
  · obtain ⟨front, back, hs⟩ := hdouble
    have hpair : Key.Collapsed ['-', '-'] := Key.Collapsed.of_append (hs ▸ hderived.toCollapsed)
    simpa using hpair.single
  · simp only [List.mem_cons, List.not_mem_nil, or_false, forall_eq_or_imp, forall_eq]
    exact ⟨⟨fun h => (hderived.head '-' h).1 rfl, fun h => (hderived.last '-' h).1 rfl⟩,
      ⟨fun h => (hderived.head '.' h).2 rfl, fun h => (hderived.last '.' h).2 rfl⟩⟩
  · have hkey : c.defaultKey f = match c.directoryName? f with
        | none => .error (.invalidRepository c.root)
        | some name => Key.ofParts "local" (String.ofList (Key.segmentOf name.toList)) := rfl
    rw [hkey]
    cases c.directoryName? f with
    | none => rfl
    | some name => exact hlocal name.toList

example : Key.segmentOf "--déjà vu--".toList = "d-j-vu".toList ∧ Key.segmentOf "..".toList = "repository".toList := by decide

end Checkout

end ContractMigration
