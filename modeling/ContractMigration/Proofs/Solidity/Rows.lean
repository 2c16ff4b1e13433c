import ContractMigration.Proofs.Solidity.Phrases
import ContractMigration.Proofs.Solidity.Pieces

/-! A row of tokens up to the end of a source. No token begins with the zero character, so what stands in front of a token
is layout by itself, and a row of tokens that are not too wild is a text in pieces. -/

namespace ContractMigration.Solidity

/-! ### First characters -/

/-- Patterns whose symbols do not begin with the character `x`. -/
def Pattern.avoids (x : Char) : Pattern → Bool
  | .symbol s => !s.toList.head?.any (· == x)
  | .symbolIn ss => ss.all fun s => !s.toList.head?.any (· == x)
  | _ => true

theorem isNul_iff {c : Char} : isNul c = true ↔ c = '\x00' := by rw [isNul, beq_iff_eq]

/-- Nothing but an empty value begins where a zero character or a semicolon stands, unless it is a symbol. -/
theorem size?_of_stop {x : Char} (hx : x = '\x00' ∨ x = ';') {p : Pattern} (hp : p.avoids x = true) {c : Cursor}
    (hc : c.Proper) {r : List Char} (htext : c.text = x :: r) {n : ℕ} (h : p.size? c = some n) : n = 0 := by
  have hstart : isWordStart x = false := by rcases hx with rfl | rfl <;> decide
  have hquote : isQuote x = false := by rcases hx with rfl | rfl <;> decide
  have hword : c.word = "" := by
    rw [hc, htext, frontWord, if_neg (by simp [hstart])]
  have hwordSize : ∀ test, Pattern.wordSize? c test = none := fun test => by
    rw [Pattern.wordSize?, if_neg (by simp [hword])]
  have hsymbol : ∀ {s : String} {m : ℕ}, s.toList.head?.any (· == x) = false → symbolSize? s c.text = some m → m = 0 := by
    intro s m hs hm
    obtain ⟨⟨z, hz⟩, rfl⟩ := Pattern.symbolSize?_eq_some hm
    rw [htext] at hz
    cases hlist : s.toList with
    | nil => rw [← String.length_toList, hlist, List.length_nil]
    | cons d u =>
      rw [hlist] at hz hs
      obtain ⟨rfl, -⟩ := List.cons.inj hz
      simp at hs
  cases p with
  | word w => exact absurd (h.symm.trans (hwordSize _)) (Option.some_ne_none n)
  | wordIn ws => exact absurd (h.symm.trans (hwordSize _)) (Option.some_ne_none n)
  | name => exact absurd (h.symm.trans (hwordSize _)) (Option.some_ne_none n)
  | operandName => exact absurd (h.symm.trans (hwordSize _)) (Option.some_ne_none n)
  | elementaryType => exact absurd (h.symm.trans (hwordSize _)) (Option.some_ne_none n)
  | symbol s => exact hsymbol (by simpa [Pattern.avoids] using hp) h
  | symbolIn ss =>
    obtain ⟨s, hs, h⟩ := List.exists_of_findSome?_eq_some h
    exact hsymbol (by simpa using List.all_eq_true.mp hp s hs) h
  | number =>
    have hzero : numberSize c.text = 0 := by
      have hdigits : digitsSize (x :: r) = 0 := by
        rw [digitsSize, List.takeWhile_cons_of_neg (by rcases hx with rfl | rfl <;> decide), List.length_nil]
      rcases hx with rfl | rfl <;> simp [htext, numberSize, decimalSize, hdigits, fractionSize_eq, hexSize_eq]
    rw [Pattern.size?, Cursor.numberSize?, hzero, if_neg (Nat.not_lt_zero _)] at h
    cases h
  | plainNumber =>
    have hzero : plainNumberSize c.text = 0 := by
      rw [htext, plainNumberSize_eq]
      rcases hx with rfl | rfl <;> rfl
    rw [Pattern.size?, hzero, if_pos rfl] at h
    cases h
  | string => rw [Pattern.size?, htext, stringSize?, if_neg (by simp [hquote])] at h; cases h
  | plainString => rw [Pattern.size?, htext, stringSize?, if_neg (by simp [hquote])] at h; cases h
  | hexString => rw [Pattern.size?, htext, hexStringSize?, if_neg (by simp [hquote])] at h; cases h
  | version =>
    have hparts : partsSize (x :: r) = 0 := by
      rw [partsSize, List.takeWhile_cons_of_neg (by rcases hx with rfl | rfl <;> decide), List.length_nil]
    rcases hx with rfl | rfl <;> simp [Pattern.size?, htext, versionSize?, charSize, hparts] at h
  | pragmaValue =>
    have hvalue : (c.text.takeWhile fun x => x != ';' && !isNul x) = [] := by
      rw [htext, List.takeWhile_cons_of_neg (by rcases hx with rfl | rfl <;> decide)]
    simp only [Pattern.size?, hvalue] at h
    split_ifs at h
    exact (Option.some.inj h).symm

/-- A token that does not begin with the zero character. -/
def Sound (t : Token) : Prop := ∀ d, t.text.toList.head? = some d → isNul d = false

theorem sound_of_read? {p : Pattern} (hp : p.avoids '\x00' = true) {c c' : Cursor} (hc : c.Proper) {t : Token}
    (h : p.read? c = some (t, c')) : Sound t := by
  obtain ⟨n, hn, rfl, -⟩ := Pattern.read?_eq_some h
  intro d hd
  rw [String.toList_ofList] at hd
  by_contra hnul
  rw [Bool.not_eq_false, isNul_iff] at hnul
  subst hnul
  cases htext : c.text with
  | nil => simp [htext] at hd
  | cons e r =>
    cases n with
    | zero => simp at hd
    | succ n =>
      rw [htext, List.take_succ_cons, List.head?_cons, Option.some.injEq] at hd
      subst hd
      exact absurd (size?_of_stop (.inl rfl) hp hc htext hn) (Nat.succ_ne_zero n)

theorem layoutSize_of_nul (r : List Char) : layoutSize ('\x00' :: r) = 0 := by
  rw [layoutSize_of_ne_slash r (by decide), if_neg (by decide)]

/-- In front of the end of a text, no token follows a zero character. -/
theorem head_of_reads {c c' : Cursor} {ts : List Token} (h : Reads c ts c') (hsound : ∀ t ∈ ts, Sound t)
    (hend : c'.text = []) : ∀ d, c.text.head? = some d → isNul d = false := by
  induction h with
  | nil => simp [hend]
  | @cons c c₁ c₂ p t ts hp _ ih =>
    rw [List.forall_mem_cons] at hsound
    have ih := ih hsound.2 hend
    obtain ⟨n, -, rfl, rfl⟩ := Pattern.read?_eq_some hp
    intro d hd
    obtain ⟨r, htext⟩ := List.head?_eq_some_iff.mp hd
    cases n with
    | zero =>
      by_contra hnul
      rw [Bool.not_eq_false, isNul_iff] at hnul
      subst hnul
      refine absurd (ih '\x00' ?_) (by decide)
      simp [htext, Cursor.ofText, layoutSize_of_nul]
    | succ n => exact hsound.1 d (by simp [htext])

/-! ### Tokens in pieces -/

theorem Cursor.layoutSize_ofText {s : List Char} {d : Char} {r : List Char} (htext : (Cursor.ofText s).text = d :: r)
    (hd : isNul d = false) : IsLayout (Cursor.ofText s).lead ∧ layoutSize (d :: r) = 0 := by
  have hs : (Cursor.ofText s).lead ++ d :: r = s := by rw [← htext, Cursor.lead_append_text]
  have hlen : (Cursor.ofText s).lead.length = layoutSize s := by
    have hlt : layoutSize s < s.length := by
      by_contra hle
      have hnil : (Cursor.ofText s).text = [] := List.drop_eq_nil_of_le (by omega)
      rw [hnil] at htext
      cases htext
    exact (List.length_take).trans (Nat.min_eq_left (by omega))
  have hlayout : IsLayout (Cursor.ofText s).lead := by
    refine Gap.ends_of_size? hd ?_ (r := r)
    rw [hs, Gap.size?_blank, hlen]
  refine ⟨hlayout, ?_⟩
  have hsize := hlayout.layoutSize_append (d :: r)
  rw [hs, ← hlen] at hsize
  omega

/-- A token that is cut along pieces, behind the characters `prev`: it has no quotes and no slashes but in front, or it is a
literal, which has to be readable as a hexadecimal string behind `hex`. -/
def tidy (prev : List Char) (t : Token) : Bool :=
  (t.text.toList.all (!isQuote ·) && !t.text.toList.tail.contains '/') ||
    (stringSize? true t.text.toList == some t.text.toList.length ||
      hexStringSize? t.text.toList == some t.text.toList.length && hexPlain t.text.toList) &&
    (!hexWord.isSuffixOf prev || hexPlain t.text.toList)

/-- The characters that a token leaves behind it. -/
def follow (prev : List Char) (t : Token) : List Char :=
  if opensQuote t then [] else prev ++ t.text.toList.filter (!isLayout ·)

/-- Tokens in a row that are cut along pieces, behind the characters `prev`. -/
def regular (prev : List Char) : List Token → Bool
  | [] => true
  | t :: r => tidy prev t && regular (follow prev t) r

theorem pieces_of_plain {x prev u r : List Char} (hquote : ∀ c ∈ u, isQuote c = false) (hslash : '/' ∉ u)
    (h : Pieces x (prev ++ u.filter (!isLayout ·)) r) : Pieces x prev (u ++ r) := by
  induction u generalizing prev with
  | nil => simpa using h
  | cons c u ih =>
    rw [List.forall_mem_cons] at hquote
    rw [List.mem_cons, not_or] at hslash
    by_cases hc : isLayout c = true
    · have hpiece : IsLayout [c] := .blank hc .nothing
      refine .layout (l := [c]) hpiece nofun (ih hquote.2 hslash.2 ?_)
      simpa [hc] using h
    · rw [Bool.not_eq_true] at hc
      refine .char hquote.1 ?_ (ih hquote.2 hslash.2 ?_)
      · rw [List.cons_append, layoutSize_of_ne_slash _ (Ne.symm hslash.1), if_neg (by simp [hc])]
      · simpa [hc] using h

theorem pieces_of_literal {x prev l r : List Char} (hl : IsLiteral l) (hhex : hexWord <:+ prev → hexPlain l = true)
    {t : Token} (ht : t.text.toList = l) (h : Pieces x (follow prev t) r) : Pieces x prev (l ++ r) := by
  obtain ⟨q, s, rfl, hq⟩ := hl.opens
  have hfollow : follow prev t = [] := if_pos (by simp [opensQuote, ht, hq])
  exact .literal hl hhex (hfollow ▸ h)

/-- A tidy token is cut along pieces, if no layout begins where it does. -/
theorem pieces_of_token {x prev r : List Char} {t : Token} (htidy : tidy prev t = true)
    (hzero : ∀ d s, t.text.toList = d :: s → layoutSize (d :: s ++ r ++ x) = 0) (h : Pieces x (follow prev t) r) :
    Pieces x prev (t.text.toList ++ r) := by
  rw [tidy, Bool.or_eq_true] at htidy
  rcases htidy with hplain | hliteral
  · simp only [Bool.and_eq_true, List.all_eq_true, Bool.not_eq_true', List.contains_eq_mem,
      decide_eq_false_iff_not] at hplain
    cases htext : t.text.toList with
    | nil => simpa [follow, opensQuote, htext] using h
    | cons d s =>
      rw [htext, List.tail_cons, List.forall_mem_cons] at hplain
      have hd := hzero d s htext
      have hlayout : isLayout d = false := (layoutSize_eq_zero_iff.mp hd).1
      refine .char hplain.1.1 hd (pieces_of_plain hplain.1.2 hplain.2 ?_)
      simpa [follow, opensQuote, htext, hplain.1.1, hlayout] using h
  · simp only [Bool.and_eq_true, Bool.or_eq_true, beq_iff_eq, Bool.not_eq_true'] at hliteral
    have hhex : hexWord <:+ prev → hexPlain t.text.toList = true := fun hprev =>
      hliteral.2.resolve_left (by simpa using hprev)
    rcases hliteral.1 with hstring | hstring
    · exact pieces_of_literal (isLiteral_of_string hstring) hhex rfl h
    · exact pieces_of_literal (isLiteral_of_hex hstring.1 hstring.2) hhex rfl h

theorem Reads.head_leading {c c' : Cursor} {t : Token} {ts : List Token} (h : Reads c (t :: ts) c') :
    t.leading.toList = c.lead := by
  cases h with
  | cons hp _ =>
    obtain ⟨n, -, rfl, -⟩ := Pattern.read?_eq_some hp
    exact String.toList_ofList

theorem Reads.text_eq {c c' : Cursor} {t : Token} {ts : List Token} (h : Reads c (t :: ts) c') :
    c.text = t.text.toList ++ (Solidity.spelled ts ++ (c'.lead ++ c'.text)) := by
  cases h with
  | cons hp hrest =>
    obtain ⟨n, -, rfl, rfl⟩ := Pattern.read?_eq_some hp
    rw [← hrest.spelled, Cursor.lead_append_text, String.toList_ofList, List.take_append_drop]

theorem layoutSize_of_reads {s : List Char} {ts : List Token} {c' : Cursor} (h : Reads (.ofText s) ts c')
    (hsound : ∀ v ∈ ts, Sound v) (hend : c'.text = []) {d : Char} {r : List Char}
    (htext : (Cursor.ofText s).text = d :: r) : IsLayout (Cursor.ofText s).lead ∧ layoutSize (d :: r) = 0 :=
  Cursor.layoutSize_ofText htext (head_of_reads h hsound hend d (by rw [htext, List.head?_cons]))

/-- A row of regular tokens in front of a gap is a text in pieces. -/
theorem pieces_of_reads {front back : List Token} {t : Token} {prev s : List Char} {c' : Cursor}
    (h : Reads (.ofText s) (front ++ t :: back) c') (hsound : ∀ v ∈ front ++ t :: back, Sound v)
    (hend : c'.text = []) (hne : t.leading ≠ "") (hregular : regular prev front = true) :
    Pieces (spelled (t :: back) ++ (c'.lead ++ c'.text)) prev (spelled front) := by
  induction front generalizing prev s with
  | nil => exact .nil prev
  | cons u front ih =>
    rw [regular, Bool.and_eq_true] at hregular
    have htext : (Cursor.ofText s).text = u.text.toList ++ spelled front ++ (spelled (t :: back) ++ (c'.lead ++ c'.text)) := by
      rw [h.text_eq, List.append_eq, spelled_append, List.append_assoc, List.append_assoc]
    have hsome : u.text.toList ++ spelled front ++ (spelled (t :: back) ++ (c'.lead ++ c'.text)) ≠ [] := by
      simp [spelled_cons, hne]
    obtain ⟨d, r, hd⟩ := List.exists_cons_of_ne_nil hsome
    obtain ⟨hlayout, hzero⟩ := layoutSize_of_reads h hsound hend (htext.trans hd)
    rw [← h.head_leading] at hlayout
    have hpieces : Pieces (spelled (t :: back) ++ (c'.lead ++ c'.text)) prev (u.text.toList ++ spelled front) := by
      refine pieces_of_token hregular.1 (fun e v hev => ?_) ?_
      · rw [← hev, hd]
        exact hzero
      · cases h with
        | cons hp hrest =>
          obtain ⟨n, -, -, rfl⟩ := Pattern.read?_eq_some hp
          rw [List.cons_append, List.forall_mem_cons] at hsound
          exact ih hrest hsound.2 hregular.2
    rw [spelled_cons u front]
    by_cases hu : u.leading.toList = []
    · rwa [hu]
    · exact .layout hlayout hu hpieces

end ContractMigration.Solidity
