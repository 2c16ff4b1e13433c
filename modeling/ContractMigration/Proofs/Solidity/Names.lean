import ContractMigration.Proofs.Solidity.Literals
import ContractMigration.Proofs.Solidity.Phrases
import ContractMigration.Proofs.Text.Blocks
import ContractMigration.Solidity.Extract
import Mathlib.Data.List.TakeWhile

/-! Imports and parents are read off the text of a phrase, with the layout in it. What is read is the spelling of tokens
all the same, as long as the layout that is passed on the way has nothing in it that counts: no quote in front of the path
of an import, and nothing but white space in the name of a parent and behind it. -/

namespace ContractMigration.Solidity

/-! ### Layout that is passed -/

theorem textOf_cons (t : Token) (ts : List Token) : Tree.textOf (t :: ts) = t.text.toList ++ spelled ts := rfl

/-- The layout in front of the tokens up to the first one that satisfies `stop` has no character of the kind `bad`. -/
def clear (bad : Char → Bool) (stop : Token → Bool) : List Token → Bool
  | [] => true
  | t :: r => !t.leading.toList.any bad && (stop t || clear bad stop r)

/-- A token stays as it is, and the layout in front of it gets no characters but spaces. -/
def Calmer (t t' : Token) : Prop := t'.text = t.text ∧ ∀ c ∈ t'.leading.toList, c = ' ' ∨ c ∈ t.leading.toList

theorem clear_cons {bad : Char → Bool} {stop : Token → Bool} {t : Token} {ts : List Token} :
    clear bad stop (t :: ts) = true ↔
      (∀ c ∈ t.leading.toList, bad c = false) ∧ (stop t = true ∨ clear bad stop ts = true) := by
  simp [clear]

theorem map_of_forall₂ {α β : Type} {R : α → α → Prop} {f : α → β} {l l' : List α} (h : List.Forall₂ R l l')
    (hf : ∀ x ∈ l, ∀ x', R x x' → f x' = f x) : l'.map f = l.map f := by
  induction h with
  | nil => rfl
  | cons hx hl ih =>
    rw [List.forall_mem_cons] at hf
    rw [List.map_cons, List.map_cons, hf.1 _ hx, ih hf.2]

theorem forall₂_tail {α : Type} {R : α → α → Prop} {l l' : List α} (h : List.Forall₂ R l l') :
    List.Forall₂ R l.tail l'.tail := by
  cases h with
  | nil => exact .nil
  | cons hx hl => exact hl

theorem texts_of_calmer {ts ts' : List Token} (h : List.Forall₂ Calmer ts ts') :
    ts'.map Token.text = ts.map Token.text := map_of_forall₂ h fun _ _ _ ht => ht.1

/-- What is clear stays so, if a space is. -/
theorem Calmer.bad_eq_false {bad : Char → Bool} (hspace : bad ' ' = false) {t t' : Token} (h : Calmer t t')
    (hbad : ∀ c ∈ t.leading.toList, bad c = false) : ∀ c ∈ t'.leading.toList, bad c = false := by
  intro c hc
  rcases h.2 c hc with rfl | hc
  · exact hspace
  · exact hbad c hc

/-! ### Paths of imports -/

/-- A token that has no quotes, or begins with a quote and has the same one behind. -/
def Closed (t : Token) : Prop :=
  (∀ c ∈ t.text.toList, isQuote c = false) ∨ ∃ q r, t.text.toList = q :: r ∧ isQuote q = true ∧ q ∈ r

theorem cutAt?_append {c : Char} {u : List Char} (h : c ∈ u) (v : List Char) :
    (Text.cutAt? c (u ++ v)).map Prod.fst = (Text.cutAt? c u).map Prod.fst ∧ Text.cutAt? c u ≠ none := by
  induction u with
  | nil => cases h
  | cons d u ih =>
    rw [List.cons_append, Text.cutAt?, Text.cutAt?]
    split_ifs with hd
    · exact ⟨rfl, Option.some_ne_none _⟩
    · have hu := ih ((List.mem_cons.mp h).resolve_left (Ne.symm hd))
      refine ⟨?_, by simpa using hu.2⟩
      simpa [Option.map_map, Function.comp_def] using congrArg (Option.map (d :: ·)) hu.1

theorem importPathChars?_cons {c : Char} (r : List Char) : importPathChars? (c :: r) =
    if isQuote c then ((Text.cutAt? c r).map Prod.fst).or (importPathChars? r) else importPathChars? r := by
  rw [importPathChars?]
  simp only [isQuote, Bool.or_eq_true, beq_iff_eq]
  split_ifs
  · rcases Text.cutAt? c r with _ | ⟨a, b⟩ <;> rfl
  · rfl

theorem importPathChars?_append {u : List Char} (hu : ∀ c ∈ u, isQuote c = false) (v : List Char) :
    importPathChars? (u ++ v) = importPathChars? v := by
  induction u with
  | nil => rfl
  | cons c u ih =>
    rw [List.forall_mem_cons] at hu
    rw [List.cons_append, importPathChars?_cons, if_neg (by simp [hu.1]), ih hu.2]

theorem importPathChars?_quoted {q : Char} {r : List Char} (hq : isQuote q = true) (hr : q ∈ r) (v : List Char) :
    importPathChars? (q :: r ++ v) = (Text.cutAt? q r).map Prod.fst := by
  obtain ⟨hfst, hne⟩ := cutAt?_append hr v
  rw [List.cons_append, importPathChars?_cons, if_pos hq, hfst]
  rcases hcut : Text.cutAt? q r with _ | p
  · exact absurd hcut hne
  · rfl

/-- The path of an import does not depend on layout without quotes. -/
theorem importPathChars?_spelled {ts ts' : List Token} (h : List.Forall₂ Calmer ts ts') (hclosed : ∀ t ∈ ts, Closed t)
    (hclear : clear isQuote opensQuote ts = true) : importPathChars? (spelled ts') = importPathChars? (spelled ts) := by
  induction h with
  | nil => rfl
  | @cons t t' ts ts' ht hts ih =>
    rw [List.forall_mem_cons] at hclosed
    rw [clear_cons] at hclear
    have hlead' := ht.bad_eq_false rfl hclear.1
    simp only [spelled, List.flatMap_cons, List.append_assoc]
    rw [importPathChars?_append hlead', importPathChars?_append hclear.1, ht.1]
    rcases hclosed.1 with hplain | ⟨q, r, htext, hq, hr⟩
    · have hstop : opensQuote t ≠ true := by
        rw [opensQuote]
        rcases htext : t.text.toList with _ | ⟨c, r⟩
        · exact Bool.false_ne_true
        · simp [hplain c (by simp [htext])]
      rw [importPathChars?_append hplain, importPathChars?_append hplain]
      exact ih hclosed.2 (hclear.2.resolve_left hstop)
    · rw [htext, importPathChars?_quoted hq hr, importPathChars?_quoted hq hr]

theorem clear_of_calmer {bad : Char → Bool} {stop : Token → Bool} (hspace : bad ' ' = false)
    (hstop : ∀ {t t'}, Calmer t t' → stop t' = stop t) {ts ts' : List Token} (h : List.Forall₂ Calmer ts ts')
    (hclear : clear bad stop ts = true) : clear bad stop ts' = true := by
  induction h with
  | nil => rfl
  | cons ht hts ih =>
    rw [clear_cons] at hclear ⊢
    exact ⟨ht.bad_eq_false hspace hclear.1, hclear.2.imp (fun h => (hstop ht).trans h) ih⟩

/-! ### Names of parents -/

/-- A word as it stands in a source. -/
def IsWord (w : String) : Prop := w ≠ "" ∧ frontWord w.toList = w.toList

/-- Words with points between them. -/
inductive Dotted : List String → Prop
  | word {w : String} (hw : IsWord w) : Dotted [w]
  | member {w : String} {ws : List String} (hw : IsWord w) (h : Dotted ws) : Dotted (w :: "." :: ws)

/-- A dotted path of identifiers. -/
def IsDottedPath (s : String) : Prop :=
  ∃ names : List String, names ≠ [] ∧ (∀ w ∈ names, IsWord w) ∧ s = Text.join "." names

/-- What precedes the first parenthesis of a text, without white space. -/
def nameChars (s : List Char) : List Char := (s.takeWhile (· != '(')).filter (!Text.isBlank ·)

/-- Whether a token opens arguments. -/
def opensArguments (t : Token) : Bool := t.text == "("

theorem nameChars_append_of_blank {u : List Char} (hu : ∀ c ∈ u, Text.isBlank c = true) (v : List Char) :
    nameChars (u ++ v) = nameChars v := by
  induction u with
  | nil => rfl
  | cons c u ih =>
    rw [List.forall_mem_cons] at hu
    have hc : c ≠ '(' := by
      rintro rfl
      exact absurd hu.1 (by decide)
    rw [← ih hu.2]
    simp [nameChars, hc, hu.1]

theorem nameChars_append_of_solid {u : List Char} (hu : ∀ c ∈ u, c ≠ '(' ∧ Text.isBlank c = false) (v : List Char) :
    nameChars (u ++ v) = u ++ nameChars v := by
  induction u with
  | nil => rfl
  | cons c u ih =>
    rw [List.forall_mem_cons] at hu
    rw [List.cons_append, List.cons_append, ← ih hu.2]
    simp [nameChars, hu.1]

theorem ne_of_isWordChar {c d : Char} (h : isWordChar c = true) (hd : isWordChar d = false) : c ≠ d := by
  rintro rfl
  exact absurd h (by simp [hd])

theorem isBlank_of_isWordChar {c : Char} (h : isWordChar c = true) : Text.isBlank c = false := by
  simp only [isWordChar, Bool.or_eq_true, beq_iff_eq] at h
  rcases h with (h | rfl) | rfl
  · exact Text.isBlank_of_isAlphanum h
  · decide
  · decide

theorem isWordChar_of_mem_frontWord {s : List Char} {c : Char} (h : c ∈ frontWord s) : isWordChar c = true := by
  cases s with
  | nil => cases h
  | cons d r =>
    rw [frontWord] at h
    split_ifs at h with hd
    · rcases List.mem_cons.mp h with rfl | h
      · simp only [isWordStart, Bool.or_eq_true] at hd
        simp only [isWordChar, Char.isAlphanum, Bool.or_eq_true]
        tauto
      · exact List.mem_takeWhile_imp h
    · cases h

theorem frontWord_frontWord (s : List Char) : frontWord (frontWord s) = frontWord s := by
  cases s with
  | nil => rfl
  | cons c r =>
    rw [frontWord]
    split_ifs with hc
    · rw [frontWord, if_pos hc, List.takeWhile_idem]
    · rfl

theorem Dotted.solid {path : List String} (h : Dotted path) :
    ∀ w ∈ path, w ≠ "(" ∧ ∀ c ∈ w.toList, c ≠ '(' ∧ Text.isBlank c = false := by
  have hword : ∀ {w}, IsWord w → w ≠ "(" ∧ ∀ c ∈ w.toList, c ≠ '(' ∧ Text.isBlank c = false := by
    rintro w ⟨-, hw⟩
    have hchars : ∀ c ∈ w.toList, isWordChar c = true := fun c hc => isWordChar_of_mem_frontWord (by rwa [hw])
    refine ⟨?_, fun c hc => ⟨ne_of_isWordChar (hchars c hc) (by decide), isBlank_of_isWordChar (hchars c hc)⟩⟩
    rintro rfl
    exact absurd (hchars '(' (by decide)) (by decide)
  induction h with
  | word hw => simpa using hword hw
  | member hw h ih => simpa using ⟨hword hw, by decide, ih⟩

theorem Dotted.isDottedPath {path : List String} (h : Dotted path) :
    IsDottedPath (String.ofList (path.flatMap String.toList)) := by
  have hnames : ∃ names : List String, names ≠ [] ∧ (∀ w ∈ names, IsWord w) ∧
      path.flatMap String.toList = Text.joinWith ['.'] (names.map String.toList) := by
    induction h with
    | @word w hw => exact ⟨[w], by simp, by simpa using hw, by simp [Text.joinWith]⟩
    | @member w ws hw h ih =>
      obtain ⟨names, hne, hall, hjoin⟩ := ih
      obtain ⟨v, vs, rfl⟩ := List.exists_cons_of_ne_nil hne
      refine ⟨w :: v :: vs, by simp, by simpa using ⟨hw, by simpa using hall⟩, ?_⟩
      rw [List.flatMap_cons, List.flatMap_cons, hjoin]
      simp [Text.joinWith]
  obtain ⟨names, hne, hall, hjoin⟩ := hnames
  exact ⟨names, hne, hall, by rw [hjoin]; rfl⟩

/-- The texts of a parent: a dotted path, and its arguments if there are any. -/
def Parental (texts : List String) : Prop :=
  ∃ path args, texts = path ++ args ∧ Dotted path ∧ ∀ a, args.head? = some a → a = "("

theorem nameChars_spelled {ts : List Token} {path args : List String} (htexts : ts.map Token.text = path ++ args)
    (hpath : ∀ w ∈ path, w ≠ "(" ∧ ∀ c ∈ w.toList, c ≠ '(' ∧ Text.isBlank c = false)
    (hargs : ∀ a, args.head? = some a → a = "(") (hclear : clear (!Text.isBlank ·) opensArguments ts = true) :
    nameChars (spelled ts) = path.flatMap String.toList := by
  induction ts generalizing path with
  | nil =>
    obtain ⟨rfl, rfl⟩ := List.append_eq_nil_iff.mp htexts.symm
    rfl
  | cons t ts ih =>
    rw [clear_cons] at hclear
    have hlead : ∀ c ∈ t.leading.toList, Text.isBlank c = true := fun c hc => by simpa using hclear.1 c hc
    rw [spelled, List.flatMap_cons, List.append_assoc, nameChars_append_of_blank hlead]
    cases path with
    | nil =>
      have hopen : t.text = "(" := hargs t.text (by rw [← List.nil_append args, ← htexts]; rfl)
      rw [hopen]
      rfl
    | cons w path =>
      obtain ⟨rfl, hrest⟩ := List.cons.inj htexts
      rw [List.forall_mem_cons] at hpath
      have hstop : opensArguments t ≠ true := by simpa [opensArguments] using hpath.1.1
      rw [nameChars_append_of_solid hpath.1.2, List.flatMap_cons]
      exact congrArg _ (ih hrest hpath.2 (hclear.2.resolve_left hstop))

/-- The name of a parent is its dotted path, if all that is passed is white space. -/
theorem parentName_textOf {ts : List Token} {path args : List String} (htexts : ts.map Token.text = path ++ args)
    (hpath : Dotted path) (hargs : ∀ a, args.head? = some a → a = "(")
    (hclear : clear (!Text.isBlank ·) opensArguments ts.tail = true) :
    parentName (String.ofList (Tree.textOf ts)) = String.ofList (path.flatMap String.toList) := by
  have hsolid := hpath.solid
  obtain ⟨w, path, rfl⟩ : ∃ w ws, path = w :: ws := by cases hpath <;> exact ⟨_, _, rfl⟩
  cases ts with
  | nil => simp at htexts
  | cons t ts =>
    obtain ⟨rfl, hrest⟩ := List.cons.inj htexts
    rw [List.forall_mem_cons] at hsolid
    have hname := nameChars_append_of_solid hsolid.1.2 (spelled ts)
    rw [nameChars_spelled hrest hsolid.2 hargs hclear] at hname
    rw [parentName, String.toList_ofList, textOf_cons]
    exact congrArg String.ofList hname

/-! ### What the grammar makes of them -/

/-- What is known of the children of a phrase: of the tokens of an import, of a parent and of a name. -/
def Shape : Phrase → List Tree → Prop
  | .importDirective, ts => ∀ t ∈ Tree.tokensOf ts, Closed t
  | .parent, ts => Parental ((Tree.tokensOf ts).map Token.text)
  | .name, ts => ∃ t, ts = [.leaf t]
  | _, _ => True

/-- A word as a token is the word at the place. -/
theorem text_of_word {p : Pattern} {c c' : Cursor} {t : Token} {test : Bool} (hp : p.size? c = Pattern.wordSize? c test)
    (hc : c.Proper) (h : p.read? c = some (t, c')) : t.text = c.word ∧ c.word ≠ "" ∧ test = true := by
  obtain ⟨n, hn, rfl, -⟩ := Pattern.read?_eq_some h
  rw [hp] at hn
  obtain ⟨hne, htest, rfl⟩ := Pattern.wordSize?_eq_some hn
  refine ⟨?_, hne, htest⟩
  show String.ofList (c.text.take c.word.length) = c.word
  rw [hc, String.length_ofList]
  exact congrArg String.ofList (List.prefix_iff_eq_take.mp (isPrefix_frontWord c.text)).symm

theorem isWord_of_read? {p : Pattern} {c c' : Cursor} {t : Token} {test : Bool} (hp : p.size? c = Pattern.wordSize? c test)
    (hc : c.Proper) (h : p.read? c = some (t, c')) : IsWord t.text := by
  obtain ⟨htext, hne, -⟩ := text_of_word hp hc h
  rw [htext]
  refine ⟨hne, ?_⟩
  rw [hc, String.toList_ofList, frontWord_frontWord]

theorem text_of_symbol {s : String} {c c' : Cursor} {t : Token} (h : (Pattern.symbol s).read? c = some (t, c')) :
    t.text = s := by
  obtain ⟨n, hn, rfl, -⟩ := Pattern.read?_eq_some h
  obtain ⟨⟨r, hr⟩, rfl⟩ := Pattern.symbolSize?_eq_some hn
  rw [← String.toList_inj, String.toList_ofList, ← hr, ← String.length_toList, List.take_left]

theorem closed_of_isWord {t : Token} (h : IsWord t.text) : Closed t := by
  refine .inl fun c hc => ?_
  have hword : isWordChar c = true := isWordChar_of_mem_frontWord (h.2.symm ▸ hc)
  rw [isQuote, Bool.or_eq_false_iff, beq_eq_false_iff_ne, beq_eq_false_iff_ne]
  exact ⟨ne_of_isWordChar hword (by decide), ne_of_isWordChar hword (by decide)⟩

namespace Grammar

open Rule

/-- Patterns whose tokens have no quotes, or are strings. -/
def plain : Pattern → Bool
  | .word _ | .wordIn _ | .name | .string => true
  | .symbol s => !s.toList.any isQuote
  | _ => false

/-- Whether imports, parents and names stand around such rules. -/
def shapes : Phrase → R → Bool
  | .importDirective, a => a.spells plain fun _ => false
  | .parent, .seq (.ref .path) (.opt (.ref .callArguments)) => true
  | .parent, _ => false
  | .name, .token .name => true
  | .name, _ => false
  | _, _ => true

theorem shapes_of_frames (n : Nonterminal) : ∀ pa ∈ (rule n).frames, shapes pa.1 pa.2 = true := by
  have hall : (rule n).frames.all (fun pa => shapes pa.1 pa.2) = true := by
    cases n with
    | guarded b => cases b <;> decide +kernel
    | guardedOperand b => cases b <;> decide +kernel
    | _ => decide +kernel
  exact List.all_eq_true.mp hall

theorem closed_of_read? {p : Pattern} {c c' : Cursor} {t : Token} (hp : plain p = true) (hc : c.Proper)
    (h : p.read? c = some (t, c')) : Closed t := by
  cases p with
  | word w => exact closed_of_isWord (isWord_of_read? rfl hc h)
  | wordIn ws => exact closed_of_isWord (isWord_of_read? rfl hc h)
  | name => exact closed_of_isWord (isWord_of_read? rfl hc h)
  | symbol s =>
    have hs : ∀ c ∈ s.toList, isQuote c = false := by simpa [plain] using hp
    refine .inl ?_
    rwa [text_of_symbol h]
  | string =>
    obtain ⟨n, hn, rfl, -⟩ := Pattern.read?_eq_some h
    obtain ⟨q, r, m, htext, hq, hm, rfl⟩ := stringSize?_eq_some hn
    exact .inr ⟨q, r.take m, by simp [htext], hq, StringPlace.mem_take_of_size? hm⟩
  | _ => cases hp

variable {depth : ℕ} {c c' : Cursor} {xs : List Tree}

theorem dotted_of_members {w : String} (hw : IsWord w) (hc : c.Proper)
    (h : parse rule depth (many (seq (sym ".") ident)) c = some (xs, c')) :
    Dotted (w :: (Tree.tokensOf xs).map Token.text) := by
  induction depth generalizing w c c' xs with
  | zero => cases h
  | succ depth ih =>
    cases fits_of_parse h with
    | enough ha => exact .word hw
    | again ha hmany =>
      obtain ⟨d, _, _, c₁, -, hpoint, hident, rfl⟩ := seq_of_parse ha
      obtain ⟨point, hpoint', rfl⟩ := read?_of_parse hpoint
      obtain ⟨t, hident', rfl⟩ := read?_of_parse hident
      have hrest := ih (isWord_of_read? rfl (Pattern.proper_of_read? hpoint') hident')
        (Pattern.proper_of_read? hident') hmany
      have hdot := text_of_symbol hpoint'
      simpa [Tree.tokensOf, Tree.tokens, hdot] using Dotted.member hw hrest

theorem dotted_of_path (hc : c.Proper) (h : parse rule depth (.ref .path) c = some (xs, c')) :
    Dotted ((Tree.tokensOf xs).map Token.text) := by
  obtain ⟨d, -, hrule⟩ := rule_of_parse h
  obtain ⟨d, _, _, c₁, -, hident, hmembers, rfl⟩ := seq_of_parse hrule
  obtain ⟨t, ht, rfl⟩ := read?_of_parse hident
  have hw := isWord_of_read? rfl hc ht
  simpa [Tree.tokensOf, Tree.tokens] using dotted_of_members hw (Pattern.proper_of_read? ht) hmembers

theorem head_of_arguments (h : parse rule depth (.ref .callArguments) c = some (xs, c')) :
    ∃ t ts, Tree.tokensOf xs = t :: ts ∧ t.text = "(" := by
  obtain ⟨d, -, hrule⟩ := rule_of_parse h
  obtain ⟨d, _, _, c₁, -, hopen, -, rfl⟩ := seq_of_parse hrule
  obtain ⟨t, ht, rfl⟩ := read?_of_parse hopen
  exact ⟨t, _, rfl, text_of_symbol ht⟩

theorem yields_shape {p : Phrase} {a : R} (h : shapes p a = true) : a.Yields rule (Shape p) := by
  intro depth c c' xs hc hparse
  cases p with
  | importDirective =>
    intro t ht
    have hspells : a.spells plain (fun _ => false) = true := h
    obtain ⟨p, c, c', hp, hc, hread⟩ := read_of_spells (fun _ hn => (Bool.false_ne_true hn).elim) hspells hc hparse t ht
    exact closed_of_read? hp hc hread
  | parent =>
    obtain rfl : a = seq (ref .path) (opt (ref .callArguments)) := by
      unfold shapes at h
      split at h <;> simp_all
    obtain ⟨d, ys, zs, c₁, -, hpath, hargs, rfl⟩ := seq_of_parse hparse
    refine ⟨(Tree.tokensOf ys).map Token.text, (Tree.tokensOf zs).map Token.text, ?_, dotted_of_path hc hpath, ?_⟩
    · rw [Tree.tokensOf_append, List.map_append]
    · cases d with
      | zero => cases hargs
      | succ d =>
        cases fits_of_parse hargs with
        | missing ha => nofun
        | given ha =>
          obtain ⟨t, ts, htokens, ht⟩ := head_of_arguments ha
          simp [htokens, ht]
  | name =>
    obtain rfl : a = ident := by
      unfold shapes at h
      split at h <;> simp_all [ident]
    obtain ⟨t, -, rfl⟩ := read?_of_parse hparse
    exact ⟨t, rfl⟩
  | _ => trivial

theorem parse?_eq_some_iff {source : String} {trees : List Tree} :
    parse? source = some trees ↔ ∃ c, parsePhrases source = some (trees, c) ∧ c.text = [] := by
  unfold parse?
  generalize parsePhrases source = o
  rcases o with _ | ⟨ts, c⟩
  · simp
  · by_cases hend : c.text = [] <;> simp [Cursor.isEnd, hend]

theorem shape_of_parse? {source : String} {trees : List Tree} (h : parse? source = some trees) :
    Tree.EachOf Shape trees := by
  obtain ⟨c, hparse, -⟩ := parse?_eq_some_iff.mp h
  have hnone : ∀ pa ∈ (ref .source : R).frames, pa.2.Yields rule (Shape pa.1) := List.forall_mem_nil _
  exact eachOf_of_parse (fun n pa hpa => yields_shape (shapes_of_frames n pa hpa)) hnone (Cursor.proper_ofText _) hparse

end Grammar

end ContractMigration.Solidity
