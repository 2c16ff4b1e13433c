import ContractMigration.Proofs.Solidity.Names
import ContractMigration.Proofs.Solidity.Pragmas

/-! The elements of a source, one after the other, in two texts that differ in one gap. A pragma in front of the gap is read
in both as it stands, and the word that begins it begins nothing else; every other element is read side by side. Behind
the gap the texts are the same. -/

namespace ContractMigration.Solidity

/-! ### What a word cannot begin -/

namespace Rule

variable {N : Type} {grammar : N → Rule N} {empties : N → Bool} {heights : N → ℕ}

/-- A rule that does not fit where the word `w` stands, if the rules of `known` do not. -/
def refuses (w : String) (known : N → Bool) : Rule N → Bool
  | fail => true
  | token (.word v) => w != v
  | seq (absent (token (.wordIn ws))) _ => ws.contains w
  | seq (opt a) b => a.refuses w known && b.refuses w known
  | seq a _ => a.refuses w known
  | alt a b => a.refuses w known && b.refuses w known
  | phrase _ a => a.refuses w known
  | ref n => known n
  | _ => false

theorem parse_of_refuses (hg : Grounded grammar empties heights) {known : N → Bool} {c : Cursor} (hword : c.word ≠ "")
    (hknown : ∀ n, known n = true → (grammar n).refuses c.word known = true) {r : Rule N} {depth : ℕ}
    (hr : r.refuses c.word known = true) (hdepth : r.height empties heights ≤ depth) :
    parse grammar depth r c = none := by
  induction depth using Nat.strong_induction_on generalizing r with
  | _ depth ih =>
    cases depth with
    | zero => rfl
    | succ depth =>
      have ih := fun {r : Rule N} (hr : r.refuses c.word known = true) {d : ℕ} (hle : d ≤ depth) =>
        ih d (by omega) hr
      unfold refuses at hr
      split at hr
      · rfl
      · next v =>
        rw [bne_iff_ne] at hr
        rw [parse_token, Pattern.read?, Pattern.size?, Pattern.wordSize?, if_neg (by simp [hr])]
        rfl
      · next ws b =>
        simp only [height] at hdepth
        obtain ⟨d, rfl⟩ : ∃ d, depth = d + 2 := ⟨depth - 2, by omega⟩
        rw [parse_seq, parse_absent, parse_token, Pattern.read?, Pattern.size?, Pattern.wordSize?, if_pos ⟨hword, hr⟩]
        rfl
      · next a b =>
        rw [Bool.and_eq_true] at hr
        simp only [height, nullable, if_true] at hdepth
        obtain ⟨d, rfl⟩ : ∃ d, depth = d + 1 := ⟨depth - 1, by omega⟩
        rw [parse_seq, parse_opt, ih hr.1 (by omega) (by omega), Option.getD_none, Option.bind_some,
          ih hr.2 (by omega) (by omega)]
        rfl
      · next a b _ _ =>
        rw [height] at hdepth
        rw [parse_seq, ih hr (Nat.le_refl _) (by omega)]
        rfl
      · next a b =>
        rw [Bool.and_eq_true] at hr
        rw [height] at hdepth
        rw [parse_alt, ih hr.1 (Nat.le_refl _) (by omega), ih hr.2 (Nat.le_refl _) (by omega)]
        rfl
      · next a =>
        rw [height] at hdepth
        rw [parse_phrase, ih hr (Nat.le_refl _) (by omega)]
        rfl
      · next n =>
        rw [height] at hdepth
        have hn := hg.height n
        exact ih (hknown n hr) (Nat.le_refl _) (by omega)
      · cases hr

end Rule

namespace Grammar

open Rule

/-- The elements beside pragmas. -/
def declarations : R :=
  match rule .element with
  | alt _ b => b
  | r => r

theorem rule_element : rule .element = alt pragma declarations := rfl

/-- The rules that an element may consist of. -/
def declared : Nonterminal → Bool
  | .importDirective | .usingDirective | .structDeclaration | .enumDeclaration | .functionDefinition | .userType
  | .errorDeclaration | .eventDefinition => true
  | _ => false

theorem refuses_of_declared (n : Nonterminal) (h : declared n = true) : (rule n).refuses "pragma" declared = true := by
  cases n <;> first | decide +kernel | cases h

/-- The word that begins a pragma begins no other element. -/
theorem declarations_of_pragma {depth : ℕ} (hdepth : 200 ≤ depth) {c : Cursor} (hword : c.word = "pragma") :
    Rule.parse rule depth declarations c = none := by
  have hheight : declarations.height empties (fun n => 40 * level n) ≤ 200 := by decide +kernel
  refine parse_of_refuses grounded (by simp [hword]) (hword ▸ refuses_of_declared) ?_ (by omega)
  rw [hword]
  decide +kernel

theorem tame_declarations : declarations.tame inner = true := by decide +kernel

end Grammar

/-! ### Where a pragma is open -/

/-- Each word that can begin a pragma is followed by a semicolon. -/
def pragmasEnd : List Token → Bool
  | [] => true
  | t :: r => (t.text != "pragma" || r.any (·.text == ";")) && pragmasEnd r

theorem pragmasEnd_of_append {ts us : List Token} (h : pragmasEnd (ts ++ us) = true) : pragmasEnd us = true := by
  induction ts with
  | nil => exact h
  | cons t ts ih => exact ih (Bool.and_eq_true_iff.mp h).2

theorem regular_of_append {prev : List Char} {ts us : List Token} (h : regular prev (ts ++ us) = true) :
    ∃ prev', regular prev' us = true := by
  induction ts generalizing prev with
  | nil => exact ⟨prev, h⟩
  | cons t ts ih => exact ih (Bool.and_eq_true_iff.mp h).2

/-- A pragma that begins in front of the gap ends there. -/
theorem exists_front {body us front back : List Token} {p w t : Token} (hrow : body ++ w :: us = front ++ t :: back)
    (hbody : ∀ v ∈ body, v.text ≠ ";") (hpragmas : pragmasEnd (p :: front) = true) (hp : p.text = "pragma") :
    ∃ front', front = body ++ w :: front' ∧ us = front' ++ t :: back := by
  have hend : ∃ v ∈ front, v.text = ";" := by simpa [pragmasEnd, hp] using (Bool.and_eq_true_iff.mp hpragmas).1
  obtain ⟨v, hv, htext⟩ := hend
  rcases List.append_eq_append_iff.mp hrow with ⟨more, rfl, hmore⟩ | ⟨more, rfl, -⟩
  · cases more with
    | nil => exact absurd htext (hbody v (by simpa using hv))
    | cons u front' =>
      obtain ⟨rfl, rfl⟩ := List.cons.inj hmore
      exact ⟨front', rfl, rfl⟩
  · exact absurd htext (hbody v (List.mem_append_left _ hv))

/-! ### Places behind an element -/

section Facing

variable {gap gap' rest : List Char} {t : Token} {back : List Token} {cEnd : Cursor}
  (hp : Parted gap gap' rest t back cEnd) {front : List Token} {c c' : Cursor}
include hp

/-- Behind what has been read side by side, the places are the same, or they face the gap again. -/
theorem Facing.of_abreast (h : Facing gap gap' rest t back cEnd front c c') {c₁ c₁' : Cursor} {ts us : List Token}
    (hreads : Reads c₁ us cEnd) (htokens : ts ++ us = front ++ t :: back) (habreast : Abreast gap gap' rest c₁ c₁') :
    c₁' = c₁ ∨ ∃ front', front = ts ++ front' ∧ us = front' ++ t :: back ∧
      Facing gap gap' rest t back cEnd front' c₁ c₁' := by
  have before : ∀ {front'}, front = ts ++ front' → us = front' ++ t :: back →
      Facing gap gap' rest t back cEnd front' c₁ c₁' := by
    rintro front' rfl rfl
    obtain ⟨prev, hregular⟩ := h.regular
    refine ⟨hreads, fun v hv => h.sound v (by simp_all), regular_of_append hregular, ?_, ?_⟩
    · cases habreast with
      | before _ => exact ⟨_, rfl⟩
      | behind _ => exact ⟨_, rfl⟩
    · exact habreast.eq_ofText hp.seam (hreads.spelled.trans (hp.spelled_eq front'))
  rcases List.append_eq_append_iff.mp htokens with ⟨front', hfront, hus⟩ | ⟨us', hts, hback⟩
  · exact .inr ⟨front', hfront, hus, before hfront hus⟩
  · cases us' with
    | nil =>
      rw [List.append_nil] at hts
      exact .inr ⟨[], by simp [hts], hback.symm, before (by simp [hts]) hback.symm⟩
    | cons u us' =>
      obtain ⟨rfl, rfl⟩ := List.cons.inj hback
      refine .inl (habreast.eq_of_length_le hp.seam ?_)
      have hlen := congrArg List.length hp.behind
      rw [hreads.spelled]
      simp only [List.append_eq, spelled_append, List.length_append] at hlen ⊢
      omega

end Facing

namespace Grammar

open Rule

variable {gap gap' rest : List Char} {t : Token} {back : List Token} {cEnd : Cursor}
  (hp : Parted gap gap' rest t back cEnd) {depth : ℕ} {front us : List Token} {c c₁ c' : Cursor} {xs : List Tree}

/-- Two readings of the same elements, which end at one place or at places that face the gap. -/
def SameElements (gap gap' rest : List Char) (t : Token) (back : List Token) (cEnd : Cursor) (us : List Token)
    (x x' : List Tree × Cursor) : Prop :=
  Tree.Likes (Paired gap gap') x.1 x'.1 ∧
    (x'.2 = x.2 ∨ ∃ front, us = front ++ t :: back ∧ pragmasEnd front = true ∧
      Facing gap gap' rest t back cEnd front x.2 x'.2)

include hp

/-- A pragma that is ended in front of the gap, or begins behind it. -/
theorem pragma_of_facing (hdepth : 256 * c.text.length + 12 ≤ depth)
    (hparse : Rule.parse rule depth pragma c = some (xs, c₁)) (hreads : Reads c₁ us cEnd)
    (htokens : Tree.tokensOf xs ++ us = front ++ t :: back) (h : Facing gap gap' rest t back cEnd front c c')
    (hpragmas : pragmasEnd front = true) :
    ∃ x', Rule.parse rule depth pragma c' = some x' ∧ SameElements gap gap' rest t back cEnd us (xs, c₁) x' := by
  obtain ⟨s, rfl⟩ := h.place
  obtain ⟨depth, _, zs, c₂, rfl, hword, hmore, rfl⟩ := seq_of_parse hparse
  obtain ⟨depth, bs, _, c₃, rfl, hbody, hend, rfl⟩ := seq_of_parse hmore
  obtain ⟨p, hread, rfl⟩ := read?_of_parse hword
  obtain ⟨w, hsemicolon, rfl⟩ := read?_of_parse hend
  have hc₂ := Pattern.proper_of_read? hread
  have hle := Pattern.length_of_read? hread
  have hw : w.text = ";" := text_of_symbol hsemicolon
  have hp' : p.text = "pragma" := by
    obtain ⟨htext, -, htest⟩ := text_of_word rfl (Cursor.proper_ofText s) hread
    rw [htext]
    exact beq_iff_eq.mp htest
  have htail : Reads c₂ (Tree.tokensOf bs ++ w :: us) cEnd :=
    (reads_of_parse hbody).append (.cons hsemicolon hreads)
  have hrow : [p] ++ (Tree.tokensOf bs ++ w :: us) = front ++ t :: back := by
    rw [← htokens]
    simp [Tree.tokensOf_append, Tree.tokensOf, Tree.tokens]
  -- the word
  have hrel := read?_abreast hp.seam (p := .word "pragma") rfl (h.abreast hp)
  rw [hread] at hrel
  obtain ⟨⟨p', c₂'⟩, hread', hpair, habreast⟩ := exists_of_rel hrel
  have hlikes : Tree.Likes (Paired gap gap') ([.leaf p] ++ (bs ++ [.leaf w])) ([.leaf p'] ++ (bs ++ [.leaf w])) :=
    .cons (.leaf hpair) (Tree.Likes.refl Paired.refl _)
  have hparse' : ∀ {c₃' c₁'}, Rule.parse rule depth pragmaBody c₂' = some (bs, c₃') →
      (Pattern.symbol ";").read? c₃' = some (w, c₁') →
      Rule.parse rule (depth + 1 + 1) pragma c' = some ([.leaf p'] ++ (bs ++ [.leaf w]), c₁') := by
    intro c₃' c₁' hbody' hsemicolon'
    obtain ⟨depth, rfl⟩ : ∃ d, depth = d + 1 := ⟨depth - 1, by omega⟩
    have hend' : Rule.parse rule (depth + 1) semicolon c₃' = some ([.leaf w], c₁') := by
      rw [semicolon, sym, parse_token, hsemicolon', Option.map_some]
    have hmore' : Rule.parse rule (depth + 1 + 1) (seq pragmaBody semicolon) c₂' = some (bs ++ [.leaf w], c₁') := by
      rw [parse_seq, hbody', Option.bind_some, hend', Option.map_some]
    show Rule.parse rule (depth + 1 + 1 + 1) (seq (kw "pragma") (seq pragmaBody semicolon)) c' = _
    rw [parse_seq, kw, parse_token, hread', Option.map_some, Option.bind_some, hmore', Option.map_some]
  rcases h.of_abreast hp htail hrow habreast with rfl | ⟨front₁, rfl, hrow₁, h₁⟩
  · exact ⟨_, hparse' hbody hsemicolon, hlikes, .inl rfl⟩
  · -- the semicolon is in front of the gap
    obtain ⟨front₂, rfl, rfl⟩ := exists_front hrow₁ (text_ne_of_pragmaBody hc₂ hbody) hpragmas hp'
    obtain ⟨c₃', hbody', h₂⟩ := pragmaBody_of_facing hp hw (by omega) hbody
      (.cons hsemicolon hreads) h₁
    obtain ⟨c₁', hsemicolon', h₃⟩ := h₂.next hp (h₂.size?_of_tame hp rfl) hsemicolon hreads
    have hpragmas₂ : pragmasEnd (p :: (Tree.tokensOf bs ++ [w]) ++ front₂) = true := by simpa using hpragmas
    exact ⟨_, hparse' hbody' hsemicolon', hlikes, .inr ⟨front₂, rfl, pragmasEnd_of_append hpragmas₂, h₃⟩⟩

/-- An element, unless the gap stands in a pragma. -/
theorem element_of_facing (hdepth : 256 * c.text.length + 202 ≤ depth)
    (hparse : Rule.parse rule depth (ref .element) c = some (xs, c₁)) (hreads : Reads c₁ us cEnd)
    (htokens : Tree.tokensOf xs ++ us = front ++ t :: back) (h : Facing gap gap' rest t back cEnd front c c')
    (hpragmas : pragmasEnd front = true) :
    ∃ x', Rule.parse rule depth (ref .element) c' = some x' ∧ SameElements gap gap' rest t back cEnd us (xs, c₁) x' := by
  obtain ⟨depth, rfl⟩ : ∃ d, depth = d + 2 := ⟨depth - 2, by omega⟩
  rw [parse_ref, rule_element] at hparse
  cases fits_of_parse hparse with
  | first _ hpragma =>
    obtain ⟨x', hparse', hsame⟩ := pragma_of_facing hp (by omega) hpragma hreads htokens h hpragmas
    exact ⟨x', by rw [parse_ref, rule_element, parse_alt, hparse', Option.some_or], hsame⟩
  | second hpragma hdeclaration =>
    have habreast := h.abreast hp
    -- no pragma begins in the other text either
    have hword : (Pattern.word "pragma").read? c = none := by
      rcases hread : (Pattern.word "pragma").read? c with _ | ⟨p, c₂⟩
      · rfl
      · obtain ⟨s, rfl⟩ := h.place
        obtain ⟨-, -, htest⟩ := text_of_word rfl (Cursor.proper_ofText s) hread
        rw [declarations_of_pragma (by omega) (beq_iff_eq.mp htest)] at hdeclaration
        cases hdeclaration
    have hword' : (Pattern.word "pragma").read? c' = none := by
      have hrel := read?_abreast hp.seam (p := .word "pragma") rfl habreast
      rw [hword] at hrel
      exact eq_none_of_rel hrel
    have hpragma' : Rule.parse rule depth pragma c' = none := by
      obtain ⟨depth, rfl⟩ : ∃ d, depth = d + 2 := ⟨depth - 2, by omega⟩
      show Rule.parse rule (depth + 1 + 1) (seq (kw "pragma") (seq pragmaBody semicolon)) c' = none
      rw [parse_seq, kw, parse_token, hword']
      rfl
    have hrel : Option.Rel (SameTrees gap gap' rest) (Rule.parse rule depth declarations c)
        (Rule.parse rule depth declarations c') := parse_abreast tame_of_inner hp.seam tame_declarations habreast
    rw [hdeclaration] at hrel
    obtain ⟨x', hparse', hlikes, hplaces⟩ := exists_of_rel hrel
    refine ⟨x', by rw [parse_ref, rule_element, parse_alt, hpragma', Option.none_or, hparse'], hlikes, ?_⟩
    refine (h.of_abreast hp hreads htokens hplaces).imp_right ?_
    rintro ⟨front', rfl, hus, h'⟩
    exact ⟨front', hus, pragmasEnd_of_append hpragmas, h'⟩

/-- The elements up to the end of the source. -/
theorem elements_of_facing (hdepth : 256 * c.text.length + 203 ≤ depth)
    (hparse : Rule.parse rule depth (many (ref .element)) c = some (xs, cEnd))
    (htokens : Tree.tokensOf xs = front ++ t :: back) (h : Facing gap gap' rest t back cEnd front c c')
    (hpragmas : pragmasEnd front = true) :
    ∃ xs', Rule.parse rule depth (many (ref .element)) c' = some (xs', cEnd) ∧ Tree.Likes (Paired gap gap') xs xs' := by
  induction depth generalizing c c' xs front with
  | zero => cases hparse
  | succ depth ih =>
    cases fits_of_parse hparse with
    | @again _ _ c₁ _ ys zs helement hmany =>
      rw [Tree.tokensOf_append] at htokens
      obtain ⟨⟨ys', c₁'⟩, helement', hlikes, hplaces⟩ := element_of_facing hp (by omega) helement (reads_of_parse hmany)
        htokens h hpragmas
      have hparse' : ∀ {zs'}, Rule.parse rule depth (many (ref .element)) c₁' = some (zs', cEnd) →
          Rule.parse rule (depth + 1) (many (ref .element)) c' = some (ys' ++ zs', cEnd) := by
        intro zs' hmany'
        rw [parse_many, helement', Option.elim_some, hmany', Option.map_some]
      rcases hplaces with hsame | ⟨front', hzs, hpragmas', h'⟩
      · obtain rfl : c₁' = c₁ := hsame
        exact ⟨_, hparse' hmany, hlikes.append (Tree.Likes.refl Paired.refl zs)⟩
      · obtain ⟨s, rfl⟩ := h.place
        have hlt := length_lt_of_parse grounded (Cursor.proper_ofText s) helement rfl
        obtain ⟨zs', hmany', hlikes'⟩ := ih (by omega) hmany hzs h' hpragmas'
        exact ⟨_, hparse' hmany', hlikes.append hlikes'⟩
    | enough helement => exact absurd htokens (by simp [Tree.tokensOf])

end Grammar

end ContractMigration.Solidity
