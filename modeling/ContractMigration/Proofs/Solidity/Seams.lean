import ContractMigration.Proofs.Solidity.Phrases
import ContractMigration.Proofs.Solidity.Pieces

/-! A text and the same text with another gap between two of its tokens, read side by side. In front of the gap both are
cut along the same pieces, behind it they are the same, so from abreast places a pattern reads one token in both, or none
in both, and the places behind are abreast again. -/

namespace ContractMigration.Solidity

/-! ### Abreast places -/

/-- Two places with the same token ahead: in front of the gap, or behind it. -/
inductive Abreast (gap gap' rest : List Char) : Cursor → Cursor → Prop
  | before {prev r : List Char} (h : Pieces (gap ++ rest) prev r) :
      Abreast gap gap' rest (.ofText (r ++ (gap ++ rest))) (.ofText (r ++ (gap' ++ rest)))
  | behind {s : List Char} (h : s.length ≤ rest.length) : Abreast gap gap' rest (.ofText s) (.ofText s)

/-- A token and the same token, where the layout in front may end with the gap. -/
def Paired (gap gap' : List Char) (t t' : Token) : Prop :=
  t'.text = t.text ∧ (t'.leading = t.leading ∨
    ∃ lead, t.leading = String.ofList (lead ++ gap) ∧ t'.leading = String.ofList (lead ++ gap'))

theorem Cursor.ofText_append {l s : List Char} (hl : IsLayout l) (hs : layoutSize s = 0) :
    Cursor.ofText (l ++ s) = ⟨l, String.ofList (frontWord s), s⟩ := by
  have hsize : layoutSize (l ++ s) = l.length := by rw [hl.layoutSize_append, hs, Nat.zero_add]
  simp [Cursor.ofText, hsize]

variable {gap gap' rest : List Char}

theorem Seam.breaks (hs : Seam gap gap' rest) (y : List Char) : Breaks (gap ++ y) ∧ Breaks (gap' ++ y) := by
  obtain ⟨⟨c, l, rfl, hc⟩, c', l', rfl, hc'⟩ := hs.exists_head
  have hmem : ∀ {d : Char}, isLayout d = true ∨ d = '/' → d ∈ breaks := by
    rintro d (hd | rfl)
    · exact mem_breaks_of_isLayout hd
    · decide
  constructor
  · rintro d ⟨⟩
    exact hmem hc
  · rintro d ⟨⟩
    exact hmem hc'

/-- Behind a token, what is left in front of the gap leads to the end of the gap, or to text in front of it. -/
theorem ofText_of_pieces (hs : Seam gap gap' rest) {prev r : List Char} (h : Pieces (gap ++ rest) prev r) :
    (∃ lead, Cursor.ofText (r ++ (gap ++ rest)) = ⟨lead ++ gap, String.ofList (frontWord rest), rest⟩ ∧
      Cursor.ofText (r ++ (gap' ++ rest)) = ⟨lead ++ gap', String.ofList (frontWord rest), rest⟩) ∨
    ∃ lead a, a ≠ [] ∧ layoutSize (a ++ (gap ++ rest)) = 0 ∧ Pieces (gap ++ rest) prev a ∧
      Cursor.ofText (r ++ (gap ++ rest)) = ⟨lead, String.ofList (frontWord a), a ++ (gap ++ rest)⟩ ∧
      Cursor.ofText (r ++ (gap' ++ rest)) = ⟨lead, String.ofList (frontWord a), a ++ (gap' ++ rest)⟩ := by
  obtain ⟨hbreaks, hbreaks'⟩ := hs.breaks rest
  obtain ⟨l, m, rfl, hl, hm, rfl | ⟨hne, hzero⟩⟩ := h.skip
  · left
    rw [List.append_nil, ← List.append_assoc, ← List.append_assoc,
      Cursor.ofText_append (Gap.Ends.append hl hs.layout) hs.token,
      Cursor.ofText_append (Gap.Ends.append hl hs.layout') hs.token]
    exact ⟨l, rfl, rfl⟩
  · right
    obtain ⟨c, m, rfl⟩ := List.exists_cons_of_ne_nil hne
    rw [List.append_assoc, List.append_assoc, Cursor.ofText_append hl hzero,
      Cursor.ofText_append hl (hs.layoutSize_eq_zero hzero), frontWord_append _ hbreaks, frontWord_append _ hbreaks']
    exact ⟨l, c :: m, hne, hzero, hm, rfl, rfl⟩

/-- Which text is left in front of the gap says where the other place is. -/
theorem Abreast.eq_ofText (hs : Seam gap gap' rest) {c c' : Cursor} (h : Abreast gap gap' rest c c') {r : List Char}
    (hc : c.lead ++ c.text = r ++ (gap ++ rest)) : c' = .ofText (r ++ (gap' ++ rest)) := by
  cases h with
  | before h =>
    rw [Cursor.lead_append_text, List.append_cancel_right_eq] at hc
    rw [hc]
  | behind h =>
    rw [Cursor.lead_append_text] at hc
    have hpos := List.length_pos_iff.mpr hs.ne
    have hlen := congrArg List.length hc
    simp only [List.length_append] at hlen
    omega

theorem Abreast.eq_of_length_le (hs : Seam gap gap' rest) {c c' : Cursor} (h : Abreast gap gap' rest c c')
    (hc : (c.lead ++ c.text).length ≤ rest.length) : c' = c := by
  cases h with
  | before h =>
    have hpos := List.length_pos_iff.mpr hs.ne
    simp only [Cursor.lead_append_text, List.length_append] at hc
    omega
  | behind h => rfl

/-! ### Tokens in front of the gap -/

/-- A symbol that begins with no quote and no layout and in which nothing could be a gap, or the mark of assembly blocks. -/
def tameSymbol (s : String) : Bool :=
  s == assemblyMark || match s.toList with
    | [] => false
    | c :: r => !isQuote c && !isLayout c && r.all (!breaks.contains ·)

/-- Patterns that do not look into a gap. -/
def Pattern.tame : Pattern → Bool
  | .hexString | .version | .pragmaValue => false
  | .symbol s => tameSymbol s
  | .symbolIn ss => ss.all tameSymbol
  | _ => true

/-- A size is the same whatever the gap, and cuts what precedes the gap along its pieces. -/
def Cuts (x a : List Char) (o o' : Option ℕ) : Prop :=
  (o = none ∧ o' = none) ∨
    ∃ u r prev, a = u ++ r ∧ o = some u.length ∧ o' = some u.length ∧ Pieces x prev r

theorem breaks_dropWhile (a : List Char) : Breaks (a.dropWhile (!breaks.contains ·)) := by
  intro c hc
  have hhead := List.head?_dropWhile_not (!breaks.contains ·) a
  rw [hc] at hhead
  simpa using hhead

/-- A size that ends in front of breaks cuts along the pieces. -/
theorem exists_pieces {x prev a : List Char} (h : Pieces x prev a) {f : List Char → ℕ}
    (hf : ∀ u {y}, Breaks y → f (u ++ y) = f u) (hle : ∀ u, f u ≤ u.length) :
    ∃ u r, a = u ++ r ∧ u.length = f a ∧ Pieces x (prev ++ u) r := by
  have hsplit : a.takeWhile (!breaks.contains ·) ++ a.dropWhile (!breaks.contains ·) = a := List.takeWhile_append_dropWhile
  have hsolid : ∀ c ∈ a.takeWhile (!breaks.contains ·), c ∉ breaks := fun c hc => by simpa using List.mem_takeWhile_imp hc
  have hsize : f a = f (a.takeWhile (!breaks.contains ·)) := by
    have hcut := hf (a.takeWhile (!breaks.contains ·)) (breaks_dropWhile a)
    rwa [hsplit] at hcut
  have hlen := hle (a.takeWhile (!breaks.contains ·))
  rw [← hsize] at hlen
  generalize a.takeWhile (!breaks.contains ·) = s at hsplit hsolid hlen
  refine ⟨s.take (f a), s.drop (f a) ++ a.dropWhile (!breaks.contains ·), ?_, ?_, ?_⟩
  · rw [← List.append_assoc, List.take_append_drop, hsplit]
  · rw [List.length_take, Nat.min_eq_left hlen]
  · refine Pieces.drop (fun c hc => hsolid c (List.mem_of_mem_take hc)) ?_
    rwa [← List.append_assoc, List.take_append_drop, hsplit]

theorem isPrefix_append_of_breaks {u : List Char} (hu : ∀ c ∈ u, c ∉ breaks) (a : List Char) {y : List Char}
    (hy : Breaks y) : u <+: a ++ y ↔ u <+: a := by
  induction u generalizing a with
  | nil => simp
  | cons c u ih =>
    rw [List.forall_mem_cons] at hu
    cases a with
    | nil =>
      cases y with
      | nil => rfl
      | cons d y =>
        have hcd : c ≠ d := by
          rintro rfl
          exact hu.1 (hy c rfl)
        simp [List.cons_prefix_cons, hcd]
    | cons d a => simp [List.cons_prefix_cons, ih hu.2 a]

section Before

variable {prev a : List Char} (hs : Seam gap gap' rest) (h : Pieces (gap ++ rest) prev a) (lead : List Char)
include h

theorem cuts_word (test : Bool) (y y' : List Char) :
    Cuts (gap ++ rest) a (Pattern.wordSize? ⟨lead, String.ofList (frontWord a), y⟩ test)
      (Pattern.wordSize? ⟨lead, String.ofList (frontWord a), y'⟩ test) := by
  rw [Pattern.wordSize?, Pattern.wordSize?]
  split_ifs
  · obtain ⟨u, r, ha, hu, hr⟩ := exists_pieces h (f := fun s => (frontWord s).length)
      (fun u _ hy => by rw [frontWord_append u hy]) fun u => (isPrefix_frontWord u).length_le
    exact .inr ⟨u, r, _, ha, by rw [String.length_ofList, hu], by rw [String.length_ofList, hu], hr⟩
  · exact .inl ⟨rfl, rfl⟩

theorem cuts_number {f : List Char → ℕ} (hf : ∀ u {y}, Breaks y → f (u ++ y) = f u) (hle : ∀ u, f u ≤ u.length)
    (test : Prop) [Decidable test] :
    Cuts (gap ++ rest) a (if test then some (f a) else none) (if test then some (f a) else none) := by
  split_ifs
  · obtain ⟨u, r, ha, hu, hr⟩ := exists_pieces h hf hle
    exact .inr ⟨u, r, _, ha, by rw [hu], by rw [hu], hr⟩
  · exact .inl ⟨rfl, rfl⟩

variable (hne : a ≠ [])
include hne

/-- What settles on literals and reads nothing else cuts along the pieces. -/
theorem cuts_literal {size? : List Char → Option ℕ}
    (hsettled : ∀ {l}, IsLiteral l → (hexWord <:+ prev → hexPlain l = true) → Settled size? l)
    (hnone : ∀ {c r}, isQuote c = false → size? (c :: r) = none) (y y' : List Char) :
    Cuts (gap ++ rest) a (size? (a ++ y)) (size? (a ++ y')) := by
  obtain ⟨c, r, rfl⟩ := List.exists_cons_of_ne_nil hne
  by_cases hc : isQuote c = true
  · obtain ⟨l, m, hlm, hl, hhex, hm⟩ := h.first_literal hc
    rw [hlm, List.append_assoc, List.append_assoc]
    rcases hsettled hl hhex with hno | hyes
    · exact .inl ⟨hno _, hno _⟩
    · exact .inr ⟨l, m, [], rfl, hyes _, hyes _, hm⟩
  · rw [Bool.not_eq_true] at hc
    exact .inl ⟨hnone hc, hnone hc⟩

include hs
variable (hzero : layoutSize (a ++ (gap ++ rest)) = 0)
include hzero

theorem cuts_symbol {s : String} (hsymbol : tameSymbol s = true) :
    Cuts (gap ++ rest) a (symbolSize? s (a ++ (gap ++ rest))) (symbolSize? s (a ++ (gap' ++ rest))) := by
  rw [tameSymbol, Bool.or_eq_true, beq_iff_eq] at hsymbol
  rcases hsymbol with rfl | hsymbol
  · refine cuts_literal h hne (fun hl _ => hl.mark) (fun {c r} hc => ?_) _ _
    have hquote : c ≠ '"' := by
      rintro rfl
      exact absurd hc (by decide)
    rw [symbolSize?, Option.map_eq_none_iff, Text.stripStart?_eq_none_iff]
    rintro ⟨z, hz⟩
    exact hquote (List.cons.inj hz).1.symm
  · obtain ⟨c, r, rfl⟩ := List.exists_cons_of_ne_nil hne
    rcases hlist : s.toList with _ | ⟨d, u⟩
    · rw [hlist] at hsymbol
      cases hsymbol
    · simp only [hlist, Bool.and_eq_true, Bool.not_eq_true', List.all_eq_true, List.contains_eq_mem,
        decide_eq_false_iff_not] at hsymbol
      have hsize : ∀ {y}, Breaks y → symbolSize? s (c :: r ++ y) = if d = c ∧ u <+: r then some s.length else none := by
        intro y hy
        rw [symbolSize?, hlist]
        split_ifs with hif
        · obtain ⟨rfl, z, rfl⟩ := hif
          rw [(Text.stripStart?_eq_some_iff (r := z ++ y)).mpr (by simp)]
          rfl
        · rw [Option.map_eq_none_iff, Text.stripStart?_eq_none_iff, List.cons_append, List.cons_prefix_cons,
            isPrefix_append_of_breaks hsymbol.2 r hy]
          exact hif
      rw [hsize (hs.breaks rest).1, hsize (hs.breaks rest).2]
      split_ifs with hif
      · obtain ⟨rfl, r, rfl⟩ := hif
        have hlen : s.length = (d :: u).length := by rw [← String.length_toList, hlist]
        refine .inr ⟨d :: u, r, prev ++ d :: u, rfl, by rw [hlen], by rw [hlen], ?_⟩
        simpa using Pieces.drop hsymbol.2 (h.first hzero hsymbol.1.1)
      · exact .inl ⟨rfl, rfl⟩

theorem cuts_of_tame {p : Pattern} (hp : p.tame = true) :
    Cuts (gap ++ rest) a (p.size? ⟨lead, String.ofList (frontWord a), a ++ (gap ++ rest)⟩)
      (p.size? ⟨lead, String.ofList (frontWord a), a ++ (gap' ++ rest)⟩) := by
  have hnumber : ∀ {y}, Breaks y → (⟨lead, String.ofList (frontWord a), a ++ y⟩ : Cursor).numberSize? =
      if (String.ofList (frontWord a)).length < numberSize a then some (numberSize a) else none := by
    intro y hy
    rw [Cursor.numberSize?, numberSize_append a hy]
  obtain ⟨hbreaks, hbreaks'⟩ := hs.breaks rest
  cases p with
  | word w => exact cuts_word h lead _ _ _
  | wordIn ws => exact cuts_word h lead _ _ _
  | name => exact cuts_word h lead _ _ _
  | operandName =>
    rw [Pattern.size?, Pattern.size?, hnumber hbreaks, hnumber hbreaks']
    exact cuts_word h lead _ _ _
  | elementaryType => exact cuts_word h lead _ _ _
  | symbol s => exact cuts_symbol hs h hne hzero hp
  | symbolIn ss =>
    simp only [Pattern.size?]
    rw [Pattern.tame] at hp
    induction ss with
    | nil => exact .inl ⟨rfl, rfl⟩
    | cons s ss ih =>
      rw [List.all_cons, Bool.and_eq_true] at hp
      rw [List.findSome?_cons, List.findSome?_cons]
      rcases cuts_symbol hs h hne hzero hp.1 with ⟨hno, hno'⟩ | ⟨u, r, prev', ha, hu, hu', hr⟩
      · rw [hno, hno']
        exact ih hp.2
      · rw [hu, hu']
        exact .inr ⟨u, r, prev', ha, rfl, rfl, hr⟩
  | number =>
    rw [Pattern.size?, Pattern.size?, hnumber hbreaks, hnumber hbreaks']
    exact cuts_number h (fun u _ hy => numberSize_append u hy) numberSize_le _
  | plainNumber =>
    simp only [Pattern.size?, plainNumberSize_append a hbreaks, plainNumberSize_append a hbreaks']
    rw [← ite_not]
    exact cuts_number h (fun u _ hy => plainNumberSize_append u hy) plainNumberSize_le _
  | string => exact cuts_literal h hne (fun hl _ => hl.string true) (fun hc => by rw [stringSize?]; simp [hc]) _ _
  | plainString => exact cuts_literal h hne (fun hl _ => hl.string false) (fun hc => by rw [stringSize?]; simp [hc]) _ _
  | hexString => cases hp
  | version => cases hp
  | pragmaValue => cases hp

end Before

/-! ### Abreast tokens -/

/-- What is read in one text and in the other: the same token in both, and the places behind are abreast. -/
def SameToken (gap gap' rest : List Char) (tc tc' : Token × Cursor) : Prop :=
  Paired gap gap' tc.1 tc'.1 ∧ Abreast gap gap' rest tc.2 tc'.2

theorem read?_of_cuts {p : Pattern} {a : List Char} {lead : List Char} {w : String}
    (h : Cuts (gap ++ rest) a (p.size? ⟨lead, w, a ++ (gap ++ rest)⟩) (p.size? ⟨lead, w, a ++ (gap' ++ rest)⟩)) :
    Option.Rel (SameToken gap gap' rest) (p.read? ⟨lead, w, a ++ (gap ++ rest)⟩) (p.read? ⟨lead, w, a ++ (gap' ++ rest)⟩) := by
  rw [Pattern.read?, Pattern.read?]
  rcases h with ⟨hno, hno'⟩ | ⟨u, r, prev, rfl, hu, hu', hr⟩
  · rw [hno, hno']
    exact .none
  · rw [hu, hu', Option.map_some, Option.map_some]
    simp only [Cursor.advance, List.append_assoc, List.take_left, List.drop_left]
    exact .some ⟨⟨rfl, .inl rfl⟩, .before hr⟩

theorem length_ofText_drop_le {s : List Char} (h : s.length ≤ rest.length) (n : ℕ) :
    ((Cursor.ofText s).text.drop n).length ≤ rest.length := by
  have hle := Cursor.length_ofText_le s
  rw [List.length_drop]
  omega

theorem read?_there {p : Pattern} {lead : List Char} {w : String} (h : p.size? ⟨lead ++ gap, w, rest⟩ = p.size? ⟨lead ++ gap', w, rest⟩) :
    Option.Rel (SameToken gap gap' rest) (p.read? ⟨lead ++ gap, w, rest⟩) (p.read? ⟨lead ++ gap', w, rest⟩) := by
  rw [Pattern.read?, Pattern.read?, h]
  cases p.size? ⟨lead ++ gap', w, rest⟩ with
  | none => exact .none
  | some n => exact .some ⟨⟨rfl, .inr ⟨lead, rfl, rfl⟩⟩, .behind (by simp)⟩

theorem read?_behind (p : Pattern) {s : List Char} (h : s.length ≤ rest.length) :
    Option.Rel (SameToken gap gap' rest) (p.read? (.ofText s)) (p.read? (.ofText s)) := by
  rw [Pattern.read?]
  cases p.size? (.ofText s) with
  | none => exact .none
  | some n => exact .some ⟨⟨rfl, .inl rfl⟩, .behind (length_ofText_drop_le h n)⟩

theorem read?_abreast (hs : Seam gap gap' rest) {p : Pattern} (hp : p.tame = true) {c c' : Cursor}
    (h : Abreast gap gap' rest c c') : Option.Rel (SameToken gap gap' rest) (p.read? c) (p.read? c') := by
  cases h with
  | before h =>
    rcases ofText_of_pieces hs h with ⟨lead, he, he'⟩ | ⟨lead, a, hne, hzero, ha, he, he'⟩
    · rw [he, he']
      refine read?_there ?_
      cases p with
      | hexString => cases hp
      | version => cases hp
      | pragmaValue => cases hp
      | _ => rfl
    · rw [he, he']
      exact read?_of_cuts (cuts_of_tame hs ha lead hne hzero hp)
  | behind h => exact read?_behind p h

/-- Behind `hex` a hexadecimal string stands in both texts or in none. -/
theorem read?_hexString (hs : Seam gap gap' rest) {prev r : List Char} (hprev : hexWord <:+ prev)
    (h : Pieces (gap ++ rest) prev r) : Option.Rel (SameToken gap gap' rest)
      (Pattern.hexString.read? (.ofText (r ++ (gap ++ rest)))) (Pattern.hexString.read? (.ofText (r ++ (gap' ++ rest)))) := by
  rcases ofText_of_pieces hs h with ⟨lead, he, he'⟩ | ⟨lead, a, hne, hzero, ha, he, he'⟩
  · rw [he, he']
    exact read?_there rfl
  · rw [he, he']
    have hsettled : ∀ {l}, IsLiteral l → (hexWord <:+ prev → hexPlain l = true) → Settled hexStringSize? l :=
      fun hl hhex => hl.hex (hhex hprev)
    refine read?_of_cuts (cuts_literal ha hne hsettled ?_ _ _)
    intro c r hc
    rw [hexStringSize?, if_neg (by simp [hc])]

theorem read?_hexWord_pieces (hs : Seam gap gap' rest) {prev a : List Char} (h : Pieces (gap ++ rest) prev a)
    (lead : List Char) :
    Option.Rel (fun tc tc' => Paired gap gap' tc.1 tc'.1 ∧
      Option.Rel (SameToken gap gap' rest) (Pattern.hexString.read? tc.2) (Pattern.hexString.read? tc'.2))
      ((Pattern.word "hex").read? ⟨lead, String.ofList (frontWord a), a ++ (gap ++ rest)⟩)
      ((Pattern.word "hex").read? ⟨lead, String.ofList (frontWord a), a ++ (gap' ++ rest)⟩) := by
  by_cases hword : frontWord a = hexWord
  · obtain ⟨r, hr⟩ := isPrefix_frontWord a
    rw [hword] at hr
    subst hr
    have hpieces := Pieces.drop (u := hexWord) (by simp [hexWord, breaks]) h
    have hread : ∀ y, (Pattern.word "hex").read? ⟨lead, String.ofList (frontWord (hexWord ++ r)), hexWord ++ r ++ y⟩ =
        some (⟨String.ofList lead, "hex"⟩, .ofText (r ++ y)) := by
      intro y
      have hsize : Pattern.wordSize? ⟨lead, String.ofList hexWord, hexWord ++ r ++ y⟩ (String.ofList hexWord == "hex") =
          some 3 := by
        rw [Pattern.wordSize?, if_pos ⟨(by decide : String.ofList hexWord ≠ ""), by decide⟩]
        exact congrArg some String.length_ofList
      rw [hword, Pattern.read?, Pattern.size?, hsize]
      rfl
    rw [hread, hread]
    exact .some ⟨⟨rfl, .inl rfl⟩, read?_hexString hs (List.suffix_append prev hexWord) hpieces⟩
  · have hread : ∀ y, (Pattern.word "hex").read? ⟨lead, String.ofList (frontWord a), y⟩ = none := by
      intro y
      have htest : (String.ofList (frontWord a) == "hex") = false := by
        rw [beq_eq_false_iff_ne]
        intro heq
        exact hword (by rw [← String.toList_ofList (l := frontWord a), heq]; rfl)
      rw [Pattern.read?, Pattern.size?, htest, Pattern.wordSize?, if_neg (by simp), Option.map_none]
    rw [hread, hread]
    exact .none

/-- Where `hex` is read, a hexadecimal string follows in both texts or in none. -/
theorem read?_hexWord (hs : Seam gap gap' rest) {c c' : Cursor} (h : Abreast gap gap' rest c c') :
    Option.Rel (fun tc tc' => Paired gap gap' tc.1 tc'.1 ∧
      Option.Rel (SameToken gap gap' rest) (Pattern.hexString.read? tc.2) (Pattern.hexString.read? tc'.2))
      ((Pattern.word "hex").read? c) ((Pattern.word "hex").read? c') := by
  cases h with
  | before h =>
    rcases ofText_of_pieces hs h with ⟨lead, he, he'⟩ | ⟨lead, a, hne, hzero, ha, he, he'⟩
    · rw [he, he', Pattern.read?, Pattern.read?]
      have hsize : (Pattern.word "hex").size? ⟨lead ++ gap, String.ofList (frontWord rest), rest⟩ =
          (Pattern.word "hex").size? ⟨lead ++ gap', String.ofList (frontWord rest), rest⟩ := rfl
      rw [hsize]
      cases (Pattern.word "hex").size? ⟨lead ++ gap', String.ofList (frontWord rest), rest⟩ with
      | none => exact .none
      | some n => exact .some ⟨⟨rfl, .inr ⟨lead, rfl, rfl⟩⟩, read?_behind _ (by simp)⟩
    · rw [he, he']
      exact read?_hexWord_pieces hs ha lead
  | behind h =>
    rw [Pattern.read?]
    cases (Pattern.word "hex").size? (.ofText _) with
    | none => exact .none
    | some n => exact .some ⟨⟨rfl, .inl rfl⟩, read?_behind _ (length_ofText_drop_le h n)⟩

end ContractMigration.Solidity
