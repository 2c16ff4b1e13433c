import ContractMigration.Json.Doc
import ContractMigration.Proofs.Text.Blocks

/-! The spellings of a value: its tokens with any white space in front of them, in place of the two layouts in which
values are written. What is proved of all spellings holds of both. Backticks stand in a spelling only inside quotes,
where they are followed by the closing quote before the line ends, and they stand there as in the string. -/

namespace ContractMigration.Json

open Text (fence Sheltered infix_append_cons_iff)

/-! ### Characters in quotes -/

/-- A character in quotes is a letter behind a backslash, two hexadecimal digits, or itself. -/
inductive Escaped (c : Char) : List Char → Prop
  | letter {e : Char} (he : e ∈ "\"\\bfnrt".toList) (hv : escapeValue? e = some c) : Escaped c ['\\', e]
  | digits {a b : Nat} (ha : a < 16) (hb : b < 16) (hc : c.toNat = 16 * a + b) (hlow : c.toNat < 0x20) :
      Escaped c ['\\', 'u', '0', '0', Nat.digitChar a, Nat.digitChar b]
  | plain (hquote : c ≠ '"') (hslash : c ≠ '\\') (hlow : ¬ c.val < 0x20) : Escaped c [c]

theorem escaped_escapeChar (c : Char) : Escaped c (escapeChar c) := by
  unfold escapeChar
  split_ifs with h1 h2 h3 h4 h5 h6 h7 h8
  · exact .letter (by decide) (by rw [h1]; rfl)
  · exact .letter (by decide) (by rw [h2]; rfl)
  · exact .letter (by decide) (by rw [h3]; rfl)
  · exact .letter (by decide) (by rw [h4]; rfl)
  · exact .letter (by decide) (by rw [h5]; rfl)
  · exact .letter (by decide) (by rw [h6]; rfl)
  · exact .letter (by decide) (by rw [h7]; rfl)
  · have hlow : c.toNat < 0x20 := h8
    exact .digits (by omega) (Nat.mod_lt _ (by decide)) (Nat.div_add_mod c.toNat 16).symm hlow
  · exact .plain h1 h2 h8

theorem Escaped.newline_notMem {c : Char} {s : List Char} (h : Escaped c s) : '\n' ∉ s := by
  cases h with
  | letter he => simpa using fun h => absurd (h ▸ he) (by decide)
  | digits ha hb =>
    have hdigit : ∀ k < 16, '\n' ≠ Nat.digitChar k := by decide
    simp [hdigit _ ha, hdigit _ hb]
  | plain _ _ hlow =>
    rw [List.mem_singleton]
    rintro rfl
    exact hlow (by decide)

theorem Escaped.backtick_notMem {c : Char} {s : List Char} (h : Escaped c s) (hc : c ≠ '\x60') : '\x60' ∉ s := by
  cases h with
  | letter he => simpa using fun h => absurd (h ▸ he) (by decide)
  | digits ha hb =>
    have hdigit : ∀ k < 16, '\x60' ≠ Nat.digitChar k := by decide
    simp [hdigit _ ha, hdigit _ hb]
  | plain => simpa using hc.symm

theorem escapeChar_ne_nil (c : Char) : escapeChar c ≠ [] := by
  have := escaped_escapeChar c
  generalize escapeChar c = s at this
  cases this <;> simp

/-! ### Backticks in strings -/

theorem infix_cons_iff_right {pat b : List Char} {c : Char} (hpat : pat ≠ []) (hc : c ∉ pat) :
    pat <:+: c :: b ↔ pat <:+: b := by
  rw [← List.nil_append (c :: b), infix_append_cons_iff hc, List.infix_nil]
  simp [hpat]

theorem infix_append_iff_right {pat a b : List Char} (hpat : pat ≠ []) (ha : ∀ c ∈ a, c ∉ pat) :
    pat <:+: a ++ b ↔ pat <:+: b := by
  induction a with
  | nil => rfl
  | cons c a ih =>
    rw [List.cons_append, infix_cons_iff_right hpat (ha c List.mem_cons_self),
      ih fun d hd => ha d (List.mem_cons_of_mem c hd)]

/-- Backticks are written as they are, and nothing else is written as backticks. -/
theorem prefix_escaped_iff {pat s : List Char} (hpat : ∀ c ∈ pat, c = '\x60') :
    pat <+: s.flatMap escapeChar ↔ pat <+: s := by
  induction pat generalizing s with
  | nil => simp
  | cons d pat ih =>
    obtain rfl := hpat d List.mem_cons_self
    cases s with
    | nil => simp
    | cons c s =>
      by_cases hc : c = '\x60'
      · obtain rfl := hc
        rw [List.flatMap_cons, show escapeChar '\x60' = ['\x60'] by decide, List.singleton_append,
          List.cons_prefix_cons, List.cons_prefix_cons, ih fun d hd => hpat d (List.mem_cons_of_mem _ hd)]
      · obtain ⟨e, es, he⟩ := List.exists_cons_of_ne_nil (escapeChar_ne_nil c)
        have hne : '\x60' ≠ e := fun h =>
          (escaped_escapeChar c).backtick_notMem hc (by rw [he, h]; exact List.mem_cons_self)
        simp [List.flatMap_cons, he, List.cons_prefix_cons, hne, Ne.symm hc]

theorem fence_infix_escaped_iff {s : List Char} : fence <:+: s.flatMap escapeChar ↔ fence <:+: s := by
  induction s with
  | nil => rfl
  | cons c s ih =>
    by_cases hc : c = '\x60'
    · obtain rfl := hc
      have hpre : fence <+: ('\x60' :: s).flatMap escapeChar ↔ fence <+: '\x60' :: s :=
        prefix_escaped_iff (by simp [fence])
      rw [List.flatMap_cons, show escapeChar '\x60' = ['\x60'] by decide, List.singleton_append] at hpre ⊢
      rw [List.infix_cons_iff, List.infix_cons_iff, hpre, ih]
    · -- neither the character nor what is written for it can be part of a fence
      have hnone : ∀ d ∈ escapeChar c, d ∉ fence := by
        intro d hd hf
        obtain rfl : d = '\x60' := by simpa [fence] using hf
        exact (escaped_escapeChar c).backtick_notMem hc hd
      have hc' : c ∉ fence := by simpa [fence] using hc
      rw [List.flatMap_cons, infix_append_iff_right (by decide) hnone, infix_cons_iff_right (by decide) hc', ih]

/-- What stands in quotes is sheltered by the closing quote, since it has no line breaks. -/
theorem sheltered_append_quote {s t : List Char} (hs : '\n' ∉ s) (ht : Sheltered t) : Sheltered (s ++ '"' :: t) := by
  induction s with
  | nil => exact ⟨fun h => absurd h (by decide), ht⟩
  | cons c s ih =>
    have hs' : '\n' ∉ s := fun h => hs (List.mem_cons_of_mem c h)
    refine ⟨fun _ => ?_, ih hs'⟩
    show '"' ∈ (s ++ '"' :: t).takeWhile (· != '\n')
    rw [List.takeWhile_append_of_pos fun d hd => bne_iff_ne.2 (ne_of_mem_of_not_mem hd hs')]
    simp

/-- The text consists of the strings `ss` in quotes, in this order, and of characters that are no backticks. -/
inductive Strung : List String → List Char → Prop
  | nil : Strung [] []
  | plain {ss : List String} {t : List Char} {c : Char} (hc : c ≠ '\x60') (h : Strung ss t) : Strung ss (c :: t)
  | string {ss : List String} {t : List Char} (s : String) (h : Strung ss t) : Strung (s :: ss) (stringText s ++ t)

namespace Strung

variable {ss ss' : List String} {t t' : List Char}

theorem append (h : Strung ss t) (h' : Strung ss' t') : Strung (ss ++ ss') (t ++ t') := by
  induction h with
  | nil => exact h'
  | plain hc _ ih => exact .plain hc ih
  | string s _ ih =>
    rw [List.cons_append, List.append_assoc]
    exact .string s ih

theorem of_plain (h : ∀ c ∈ t, c ≠ '\x60') : Strung [] t := by
  induction t with
  | nil => exact .nil
  | cons c t ih => exact .plain (h c List.mem_cons_self) (ih fun d hd => h d (List.mem_cons_of_mem c hd))

theorem of_string (s : String) : Strung [s] (stringText s) := by
  simpa using Strung.string s .nil

theorem commaJoin {α : Type} {l : List α} {strings : α → List String} {text : α → List Char}
    (h : ∀ a ∈ l, Strung (strings a) (text a)) : Strung (l.flatMap strings) (commaJoin (l.map text)) := by
  induction l with
  | nil => exact .nil
  | cons a l ih =>
    have ha := h a List.mem_cons_self
    have hl := ih fun b hb => h b (List.mem_cons_of_mem a hb)
    cases l with
    | nil => simpa [Json.commaJoin] using ha
    | cons b l => exact ha.append (.plain (by decide) hl)

theorem sheltered (h : Strung ss t) : Sheltered t := by
  induction h with
  | nil => trivial
  | plain hc _ ih => exact ⟨fun h => absurd h hc, ih⟩
  | @string _ t s _ ih =>
    have hbody : '\n' ∉ s.toList.flatMap escapeChar := by
      simpa using fun c _ => (escaped_escapeChar c).newline_notMem
    have := sheltered_append_quote (s := '"' :: s.toList.flatMap escapeChar) (by simpa using hbody) ih
    simpa [stringText] using this

/-- Three backticks stand together in the text exactly if they do in one of its strings. -/
theorem fence_infix_iff (h : Strung ss t) : fence <:+: t ↔ ∃ s ∈ ss, fence <:+: s.toList := by
  induction h with
  | nil => simp [fence]
  | @plain _ t c hc _ ih =>
    have hc' : c ∉ fence := by simpa [fence] using hc
    rw [infix_cons_iff_right (by decide) hc', ih]
  | @string _ t s _ ih =>
    have hquote : '"' ∉ fence := by decide
    have htext : stringText s ++ t = '"' :: (s.toList.flatMap escapeChar ++ '"' :: t) := by simp [stringText]
    rw [htext, infix_cons_iff_right (by decide) hquote, infix_append_cons_iff hquote, fence_infix_escaped_iff, ih]
    simp

end Strung

/-! ### Spellings -/

mutual

/-- The strings of a value in the order of its text, keys among them. -/
def Value.strings : Value → List String
  | .string s => [s]
  | .list items => itemStrings items
  | .object members => memberStrings members
  | _ => []

/-- The strings of the items. -/
def itemStrings : List Value → List String
  | [] => []
  | v :: r => v.strings ++ itemStrings r

/-- The strings of the members. -/
def memberStrings : List (String × Value) → List String
  | [] => []
  | (k, v) :: r => k :: v.strings ++ memberStrings r

end

theorem itemStrings_eq (items : List Value) : itemStrings items = items.flatMap Value.strings := by
  induction items with
  | nil => rfl
  | cons v r ih => rw [itemStrings, ih, List.flatMap_cons]

theorem memberStrings_eq (members : List (String × Value)) :
    memberStrings members = members.flatMap fun m => m.1 :: m.2.strings := by
  induction members with
  | nil => rfl
  | cons m r ih => rw [memberStrings, ih, List.flatMap_cons]

/-- Nothing but white space between tokens. -/
def Space (w : List Char) : Prop := ∀ c ∈ w, isSpace c = true

/-- The text spells the value, with any white space in front of its tokens and at most `n` brackets open at once.
Numbers are naturals of sixty-four bits. -/
inductive Spells : Nat → Value → List Char → Prop
  | null {n : Nat} : Spells n .null "null".toList
  | bool {n : Nat} (b : Bool) : Spells n (.bool b) (Value.bool b).text
  | nat {n k : Nat} (hk : k < Nat.pow 2 64) : Spells n (.nat k) (Nat.toDigits 10 k)
  | string {n : Nat} (s : String) : Spells n (.string s) (stringText s)
  | list {n : Nat} {items : List Value} (text : Value → List Char) {w w' : List Char} (hw : Space w) (hw' : Space w')
      (h : ∀ v ∈ items, Spells n v (text v)) :
      Spells (n + 1) (.list items) ('[' :: (commaJoin (items.map (w ++ text ·)) ++ (w' ++ [']'])))
  | object {n : Nat} {members : List (String × Value)} (text : Value → List Char) {w w' gap : List Char}
      (hw : Space w) (hw' : Space w') (hgap : Space gap)
      (h : ∀ m ∈ members, Spells n m.2 (text m.2)) :
      Spells (n + 1) (.object members) ('\x7b' ::
        (commaJoin (members.map fun m => w ++ (stringText m.1 ++ ':' :: (gap ++ text m.2))) ++ (w' ++ ['\x7d'])))

theorem Space.strung {w : List Char} (h : Space w) : Strung [] w :=
  .of_plain fun c hc => by
    rintro rfl
    exact absurd (h _ hc) (by decide)

theorem Spells.strung {n : Nat} {v : Value} {t : List Char} (h : Spells n v t) : Strung v.strings t := by
  induction h with
  | null => exact .of_plain (by simp)
  | bool b => cases b <;> exact .of_plain (by simp [Value.text])
  | nat =>
    refine .of_plain fun c hc => ?_
    have hdigit := Nat.isDigit_of_mem_toDigits (by decide) (by decide) hc
    rintro rfl
    exact absurd hdigit (by decide)
  | string s => exact .of_string s
  | @list n items text w w' hw hw' _ ih =>
    have hitems : Strung (items.flatMap Value.strings) (Json.commaJoin (items.map (w ++ text ·))) :=
      .commaJoin fun v hv => hw.strung.append (ih v hv)
    rw [Value.strings, itemStrings_eq]
    exact .plain (by decide) (by simpa using hitems.append (hw'.strung.append (.of_plain (t := [']']) (by simp))))
  | @object n members text w w' gap hw hw' hgap _ ih =>
    have hmember : ∀ m ∈ members,
        Strung (m.1 :: m.2.strings) (w ++ (stringText m.1 ++ ':' :: (gap ++ text m.2))) := fun m hm =>
      hw.strung.append (.string m.1 (.plain (by decide) (hgap.strung.append (ih m hm))))
    rw [Value.strings, memberStrings_eq]
    exact .plain (by decide)
      (by simpa using (Strung.commaJoin hmember).append (hw'.strung.append (.of_plain (t := ['\x7d']) (by simp))))

/-! ### The two layouts -/

/-- Numbers are naturals of sixty-four bits, and at most `n` brackets are open at once. -/
inductive Value.Plain : Nat → Value → Prop
  | null {n : Nat} : Plain n .null
  | bool {n : Nat} (b : Bool) : Plain n (.bool b)
  | nat {n k : Nat} (hk : k < Nat.pow 2 64) : Plain n (.nat k)
  | string {n : Nat} (s : String) : Plain n (.string s)
  | list {n : Nat} {items : List Value} (h : ∀ v ∈ items, Plain n v) : Plain (n + 1) (.list items)
  | object {n : Nat} {members : List (String × Value)} (h : ∀ m ∈ members, Plain n m.2) : Plain (n + 1) (.object members)

theorem itemTexts_eq (items : List Value) : itemTexts items = items.map Value.text := by
  induction items with
  | nil => rfl
  | cons v r ih => rw [itemTexts, ih, List.map_cons]

theorem memberTexts_eq (members : List (String × Value)) :
    memberTexts members = members.map fun m => stringText m.1 ++ ':' :: m.2.text := by
  induction members with
  | nil => rfl
  | cons m r ih => rw [memberTexts, ih, List.map_cons]

theorem prettyItems_eq (level : Nat) (items : List Value) :
    prettyItems level items = items.map (Value.prettyText level) := by
  induction items with
  | nil => rfl
  | cons v r ih => rw [prettyItems, ih, List.map_cons]

theorem prettyMembers_eq (level : Nat) (members : List (String × Value)) :
    prettyMembers level members = members.map fun m => stringText m.1 ++ ':' :: ' ' :: m.2.prettyText level := by
  induction members with
  | nil => rfl
  | cons m r ih => rw [prettyMembers, ih, List.map_cons]

theorem space_nil : Space [] := by simp [Space]

theorem space_indent (level : Nat) : Space (indent level) := by
  intro c hc
  obtain rfl | hc := List.mem_cons.1 hc
  · decide
  · rw [List.eq_of_mem_replicate hc]
    decide

theorem lineJoin_of_ne_nil {level : Nat} {texts : List (List Char)} (h : texts ≠ []) :
    lineJoin level texts = commaJoin (texts.map (indent (level + 1) ++ ·)) ++ indent level := by
  cases texts with
  | nil => contradiction
  | cons t r => rfl

theorem Value.Plain.spells_text {n : Nat} {v : Value} (h : v.Plain n) : Spells n v v.text := by
  induction h with
  | null => exact .null
  | bool b => exact .bool b
  | nat hk => exact .nat hk
  | string s => exact .string s
  | list _ ih =>
    have := Spells.list Value.text space_nil space_nil ih
    simpa [Value.text, itemTexts_eq] using this
  | object _ ih =>
    have := Spells.object Value.text space_nil space_nil space_nil ih
    simpa [Value.text, memberTexts_eq] using this

theorem Value.Plain.spells_prettyText {n : Nat} {v : Value} (h : v.Plain n) (level : Nat) :
    Spells n v (v.prettyText level) := by
  induction h generalizing level with
  | null => exact .null
  | bool b => exact .bool b
  | nat hk => exact .nat hk
  | string s => exact .string s
  | @list _ items _ ih =>
    by_cases hne : items = []
    · obtain rfl := hne
      exact .list (Value.prettyText 0) space_nil space_nil (by simp)
    · have := Spells.list (Value.prettyText (level + 1)) (space_indent (level + 1)) (space_indent level)
        fun v hv => ih v hv (level + 1)
      rw [Value.prettyText, prettyItems_eq, lineJoin_of_ne_nil (by simpa using hne)]
      simpa [Function.comp_def] using this
  | @object _ members _ ih =>
    by_cases hne : members = []
    · obtain rfl := hne
      exact .object (Value.prettyText 0) space_nil space_nil space_nil (by simp)
    · have hgap : Space [' '] := by simp [Space, isSpace]
      have := Spells.object (Value.prettyText (level + 1)) (space_indent (level + 1)) (space_indent level) hgap
        fun m hm => ih m hm (level + 1)
      rw [Value.prettyText, prettyMembers_eq, lineJoin_of_ne_nil (by simpa using hne)]
      simpa [Function.comp_def] using this

end ContractMigration.Json
