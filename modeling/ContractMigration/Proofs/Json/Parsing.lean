import ContractMigration.Json.Reader
import ContractMigration.Proofs.Json.Grammar

/-! A spelling of a value is cut into the document of the value, and no part of it that lacks its end is cut without
fault. -/

namespace ContractMigration.Json

theorem itemDocs_eq (items : List Value) : itemDocs items = items.map Value.doc := by
  induction items with
  | nil => rfl
  | cons v r ih => rw [itemDocs, ih, List.map_cons]

theorem memberDocs_eq (members : List (String × Value)) :
    memberDocs members = members.map fun m => (⟨.quote, .ok (.string m.1), none⟩, m.2.doc) := by
  induction members with
  | nil => rfl
  | cons m r ih => rw [memberDocs, ih, List.map_cons]

/-! ### Spellings are in the grammar -/

theorem dropSpace_space {w : List Char} (hw : Space w) (s : List Char) : dropSpace (w ++ s) = dropSpace s :=
  List.dropWhile_append_of_pos hw

theorem Cuts.of_dropSpace {room : Nat} {d : Doc} {s s' rest : List Char} (h : Cuts room (.value d) s rest)
    (hdrop : dropSpace s = dropSpace s') : Cuts room (.value d) s' rest := by
  cases h with
  | scalar h => exact .scalar (hdrop ▸ h)
  | noItems h hr => exact .noItems (hdrop ▸ h) hr
  | list h hr => exact .list (hdrop ▸ h) hr
  | noMembers h hr => exact .noMembers (hdrop ▸ h) hr
  | object h hr hm => exact .object (hdrop ▸ h) hr hm

theorem Cuts.space_value {room : Nat} {d : Doc} {s rest w : List Char} (hw : Space w)
    (h : Cuts room (.value d) s rest) : Cuts room (.value d) (w ++ s) rest :=
  h.of_dropSpace (dropSpace_space hw s).symm

theorem stops_cons {c : Char} (hc : isDigit c = false ∧ c ≠ '.' ∧ c ≠ 'e' ∧ c ≠ 'E') (q : List Char) :
    Stops (c :: q) := by
  rintro b hb
  obtain rfl : c = b := by simpa using hb
  exact hc

theorem stops_space {w q : List Char} (hw : Space w) (hq : Stops q) : Stops (w ++ q) := by
  cases w with
  | nil => exact hq
  | cons a w =>
    have ha : isSpace a = true := hw a List.mem_cons_self
    simp only [isSpace, Bool.or_eq_true, beq_iff_eq] at ha
    obtain ((rfl | rfl) | rfl) | rfl := ha <;> exact stops_cons (by decide) _

theorem dropSpace_closing {w q : List Char} {c : Char} (hw : Space w) (hc : isSpace c = false) :
    dropSpace (w ++ c :: q) = c :: q := by
  rw [dropSpace_space hw, dropSpace, List.dropWhile_cons_of_neg (by simpa using hc)]

/-- Items between commas are cut one after the other. -/
theorem cuts_items {room : Nat} {text : Value → List Char} {w w' : List Char} (hw : Space w) (hw' : Space w')
    {items : List Value} (hne : items ≠ [])
    (h : ∀ v ∈ items, ∀ q, Stops q → Cuts room (.value v.doc) (text v ++ q) q) (q : List Char) :
    Cuts room (.items (items.map Value.doc)) (commaJoin (items.map (w ++ text ·)) ++ (w' ++ ']' :: q)) q := by
  induction items with
  | nil => contradiction
  | cons v r ih =>
    have hv := h v List.mem_cons_self
    cases r with
    | nil =>
      have hcut := (hv (w' ++ ']' :: q) (stops_space hw' (stops_cons (by decide) q))).space_value hw
      exact .lastItem (by simpa [commaJoin] using hcut) (dropSpace_closing hw' (by decide))
    | cons v' r =>
      have hcut := (hv (',' :: (commaJoin ((v' :: r).map (w ++ text ·)) ++ (w' ++ ']' :: q)))
        (stops_cons (by decide) _)).space_value hw
      exact .nextItem (by simpa [commaJoin] using hcut) (dropSpace_closing space_nil (by decide))
        (ih (by simp) fun u hu => h u (List.mem_cons_of_mem v hu))

theorem commaJoin_quote (w s : List Char) (r : List (List Char)) :
    commaJoin ((w ++ '"' :: s) :: r) = w ++ '"' :: commaJoin (s :: r) := by
  cases r with
  | nil => rfl
  | cons c r => simp [commaJoin]

/-- A member behind the quote that opens its key. -/
def memberTail (text : Value → List Char) (gap : List Char) (m : String × Value) : List Char :=
  m.1.toList.flatMap escapeChar ++ '"' :: ':' :: (gap ++ text m.2)

theorem quote_memberTail (text : Value → List Char) (gap : List Char) (m : String × Value) :
    stringText m.1 ++ ':' :: (gap ++ text m.2) = '"' :: memberTail text gap m := by
  simp [stringText, memberTail]

/-- Members between commas are cut one after the other. -/
theorem cuts_members {room : Nat} {text : Value → List Char} {w w' gap : List Char} (hw : Space w) (hw' : Space w')
    (hgap : Space gap) {m : String × Value} {members : List (String × Value)}
    (h : ∀ m' ∈ m :: members, ∀ q, Stops q → Cuts room (.value m'.2.doc) (text m'.2 ++ q) q) (q : List Char) :
    Cuts room (.members ((m :: members).map fun m => (⟨.quote, .ok (.string m.1), none⟩, m.2.doc)))
      (commaJoin (memberTail text gap m :: members.map fun m => w ++ '"' :: memberTail text gap m) ++
        (w' ++ '\x7d' :: q)) q := by
  induction members generalizing m with
  | nil =>
    have hm := (h m List.mem_cons_self (w' ++ '\x7d' :: q) (stops_space hw' (stops_cons (by decide) q))).space_value hgap
    have hkey := stringLeaf_quoted m.1 (':' :: (gap ++ text m.2 ++ (w' ++ '\x7d' :: q)))
    exact .lastMember (by simpa [commaJoin, memberTail] using hkey) (dropSpace_closing space_nil (by decide))
      (by simpa using hm) (dropSpace_closing hw' (by decide))
  | cons m' r ih =>
    generalize htail : commaJoin (memberTail text gap m' :: r.map fun m => w ++ '"' :: memberTail text gap m) ++
      (w' ++ '\x7d' :: q) = tail
    have hm := (h m List.mem_cons_self (',' :: (w ++ '"' :: tail)) (stops_cons (by decide) _)).space_value hgap
    have hkey := stringLeaf_quoted m.1 (':' :: (gap ++ text m.2 ++ ',' :: (w ++ '"' :: tail)))
    have hrest := ih fun u hu => h u (List.mem_cons_of_mem m hu)
    rw [htail] at hrest
    have htext : commaJoin (memberTail text gap m :: (m' :: r).map fun m => w ++ '"' :: memberTail text gap m) ++
        (w' ++ '\x7d' :: q) = memberTail text gap m ++ ',' :: (w ++ '"' :: tail) := by
      rw [← htail, List.map_cons, commaJoin, commaJoin_quote]
      simp
    rw [htext]
    exact .nextMember (by simpa [memberTail] using hkey) (dropSpace_closing space_nil (by decide))
      (by simpa using hm) (dropSpace_closing space_nil (by decide)) (dropSpace_closing hw (by decide)) hrest

theorem scalarLeaf_digit {c : Char} (hc : isDigit c = true) (s : List Char) :
    scalarLeaf (dropSpace (c :: s)) = numberLeaf (c :: s) := by
  have hne : ∀ d, isDigit d = false → c ≠ d := by
    rintro d hd rfl
    rw [hc] at hd
    cases hd
  have hspace : isSpace c = false := by
    simp [isSpace, hne ' ' (by decide), hne '\n' (by decide), hne '\t' (by decide), hne '\r' (by decide)]
  rw [dropSpace, List.dropWhile_cons_of_neg (by simp [hspace]), scalarLeaf, if_pos (by simp [hc])]
  · exact hne '"' (by decide)
  · exact hne 'n' (by decide)
  · exact hne 't' (by decide)
  · exact hne 'f' (by decide)

/-- A spelling is cut into the document of its value. -/
theorem Spells.cuts {n room : Nat} {v : Value} {t : List Char} (h : Spells n v t) (hn : n ≤ room) {q : List Char}
    (hq : Stops q) : Cuts room (.value v.doc) (t ++ q) q := by
  induction h generalizing room q with
  | null => exact .scalar rfl
  | bool b => cases b with
    | false => exact .scalar rfl
    | true => exact .scalar rfl
  | @nat n k hk =>
    have hleaf := numberLeaf_toDigits hk hq
    obtain ⟨c, r, hds⟩ := List.exists_cons_of_ne_nil (Nat.toDigits_ne_nil (b := 10) (n := k))
    have hc : isDigit c = true := isDigit_of_mem_toDigits (hds ▸ List.mem_cons_self)
    refine .scalar ?_
    rw [hds] at hleaf ⊢
    rw [List.cons_append, scalarLeaf_digit hc]
    exact hleaf
  | string s =>
    have hleaf := stringLeaf_quoted s q
    refine .scalar ?_
    simpa [stringText, dropSpace, isSpace, scalarLeaf] using hleaf
  | @list n items text w w' hw hw' _ ih =>
    obtain ⟨k, rfl⟩ : ∃ k, room = k + 1 := Nat.exists_eq_add_of_le' (Nat.le_of_add_left_le hn)
    rw [Value.doc, itemDocs_eq]
    obtain rfl | hne := eq_or_ne items []
    · have hclose := dropSpace_closing (q := q) hw' (by decide : isSpace ']' = false)
      exact @Cuts.noItems (k + 1) _ _ _ (dropSpace_closing space_nil (by decide)) (by simpa [commaJoin] using hclose)
    · have hitems := cuts_items hw hw' hne (fun v hv q hq => ih v hv (Nat.le_of_succ_le_succ hn) hq) q
      exact @Cuts.list (k + 1) _ _ _ _ (dropSpace_closing space_nil (by decide)) (by simpa using hitems)
  | @object n members text w w' gap hw hw' hgap _ ih =>
    obtain ⟨k, rfl⟩ : ∃ k, room = k + 1 := Nat.exists_eq_add_of_le' (Nat.le_of_add_left_le hn)
    cases members with
    | nil =>
      have hclose := dropSpace_closing (q := q) hw' (by decide : isSpace '\x7d' = false)
      exact @Cuts.noMembers (k + 1) _ _ _ (dropSpace_closing space_nil (by decide)) (by simpa [commaJoin] using hclose)
    | cons m members =>
      have hmembers := cuts_members hw hw' hgap (fun m hm q hq => ih m hm (Nat.le_of_succ_le_succ hn) hq) q
      have hquote := dropSpace_closing (q := commaJoin (memberTail text gap m ::
        members.map fun m => w ++ '"' :: memberTail text gap m) ++ (w' ++ '\x7d' :: q)) hw (by decide : isSpace '"' = false)
      rw [Value.doc, memberDocs_eq]
      refine @Cuts.object (k + 1) _ _ _ _ _ (dropSpace_closing space_nil (by decide)) ?_ hmembers
      simp only [quote_memberTail]
      rw [List.map_cons, commaJoin_quote]
      simpa using hquote

/-! ### Whole texts and their beginnings -/

theorem Cuts.unique {room : Nat} {d d' : Doc} {s r r' : List Char} (h : Cuts room (.value d) s r)
    (h' : Cuts room (.value d') s r') : d = d' ∧ r = r' := by
  have heq := (h.parsed _ (Nat.le_refl _)).symm.trans (h'.parsed _ (Nat.le_refl _))
  simpa using heq

/-- The text begins with an opening bracket. -/
def Opens (s : List Char) : Prop := ∃ r, s = '[' :: r ∨ s = '\x7b' :: r

/-- The value is a list or an object. -/
def Value.IsContainer : Value → Prop
  | .list _ | .object _ => True
  | _ => False

theorem Spells.opens {n : Nat} {v : Value} {t : List Char} (h : Spells n v t) (hv : v.IsContainer) : Opens t := by
  cases h with
  | list => exact ⟨_, .inl rfl⟩
  | object => exact ⟨_, .inr rfl⟩
  | null | bool | nat | string => cases hv

theorem Spells.edged {n : Nat} {v : Value} {t : List Char} (h : Spells n v t) (hv : v.IsContainer) :
    Text.Edged t := by
  cases h with
  | list =>
    rw [← List.append_assoc]
    exact Text.edged_of_ends (by decide) (by decide) _
  | object =>
    rw [← List.append_assoc]
    exact Text.edged_of_ends (by decide) (by decide) _
  | null | bool | nat | string => cases hv

theorem Cuts.ne_leaf {room : Nat} {d : Doc} {s rest : List Char} (h : Cuts room (.value d) s rest) (hs : Opens s)
    (l : Leaf) : d ≠ .leaf l := by
  cases h with
  | scalar h => obtain ⟨r, rfl | rfl⟩ := hs <;> cases h
  | noItems | list | noMembers | object =>
    unfold guardDepth
    split <;> simp

/-- A list or object that is cut without fault needs the whole of its text. -/
theorem Cuts.not_of_append {room : Nat} {d d' : Doc} {s t rest : List Char} (h : Cuts room (.value d) (s ++ t) [])
    (hs : Opens s) (ht : t ≠ []) : ¬ Cuts room (.value d') s rest := by
  intro h'
  -- what the beginning is cut into would be what the whole text is cut into, with more than nothing behind it
  have hlonger := h'.append (fun l hl => absurd (Phrase.value.inj hl) (h'.ne_leaf hs l)) t
  exact ht (List.append_eq_nil_iff.1 (h.unique hlonger).2.symm).2

theorem Document.parse_of_cuts_space {d : Doc} {s w : List Char} (h : Cuts maxDepth (.value d) s w) (hw : Space w) :
    Document.parse (String.ofList s) = ⟨d, false⟩ := by
  have hparse := h.parsed (2 * s.length + 2) (by omega)
  have hdrop : dropSpace w = [] := List.dropWhile_eq_nil_iff.2 hw
  simp [Document.parse, hparse, hdrop]

theorem Document.parse_of_cuts {d : Doc} {s : List Char} (h : Cuts maxDepth (.value d) s []) :
    Document.parse (String.ofList s) = ⟨d, false⟩ :=
  Document.parse_of_cuts_space h space_nil

/-- The beginning of a list or object is faulty to its end. -/
theorem Document.parse_of_cut_off {d : Doc} {s t : List Char} (h : Cuts maxDepth (.value d) (s ++ t) []) (hs : Opens s)
    (ht : t ≠ []) : ∃ d', Document.parse (String.ofList s) = ⟨d', false⟩ ∧
      parseValue maxDepth (2 * s.length + 2) s = (d', none) := by
  obtain ⟨d', o, hparse⟩ : ∃ d' o, parseValue maxDepth (2 * s.length + 2) s = (d', o) := ⟨_, _, rfl⟩
  cases o with
  | none => exact ⟨d', by simp [Document.parse, hparse], hparse⟩
  | some rest => exact absurd ((sound _).value hparse) (h.not_of_append hs ht)

end ContractMigration.Json
