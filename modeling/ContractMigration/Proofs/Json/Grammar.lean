import ContractMigration.Proofs.Json.Locality

/-! Which texts are cut into values without fault, as a grammar without fuel. -/

namespace ContractMigration.Json

/-- What a text is cut into: a value, the items up to the end of a list, or the members up to the end of an object. -/
inductive Phrase
  | value (d : Doc)
  | items (ds : List Doc)
  | members (ms : List (Leaf × Doc))

/-- The text is cut into the phrase without fault, and `rest` follows. Members are cut behind the quote that opens the
first key. -/
inductive Cuts : Nat → Phrase → List Char → List Char → Prop
  | scalar {room : Nat} {s rest : List Char} {l : Leaf} (h : scalarLeaf (dropSpace s) = (l, some rest)) :
      Cuts room (.value (.leaf l)) s rest
  | noItems {room : Nat} {s r rest : List Char} (h : dropSpace s = '[' :: r) (hr : dropSpace r = ']' :: rest) :
      Cuts room (.value (guardDepth room (.list [] .closed))) s rest
  | list {room : Nat} {s r rest : List Char} {ds : List Doc} (h : dropSpace s = '[' :: r)
      (hr : Cuts (room - 1) (.items ds) r rest) : Cuts room (.value (guardDepth room (.list ds .closed))) s rest
  | noMembers {room : Nat} {s r rest : List Char} (h : dropSpace s = '\x7b' :: r) (hr : dropSpace r = '\x7d' :: rest) :
      Cuts room (.value (guardDepth room (.object [] .closed))) s rest
  | object {room : Nat} {s r r' rest : List Char} {ms : List (Leaf × Doc)} (h : dropSpace s = '\x7b' :: r)
      (hr : dropSpace r = '"' :: r') (hm : Cuts (room - 1) (.members ms) r' rest) :
      Cuts room (.value (guardDepth room (.object ms .closed))) s rest
  | lastItem {room : Nat} {s r rest : List Char} {d : Doc} (hd : Cuts room (.value d) s r)
      (hr : dropSpace r = ']' :: rest) : Cuts room (.items [d]) s rest
  | nextItem {room : Nat} {s r r' rest : List Char} {d : Doc} {ds : List Doc} (hd : Cuts room (.value d) s r)
      (hr : dropSpace r = ',' :: r') (hds : Cuts room (.items ds) r' rest) : Cuts room (.items (d :: ds)) s rest
  | lastMember {room : Nat} {s r r' t rest : List Char} {k : Leaf} {d : Doc} (hk : stringLeaf s = (k, some r))
      (hr : dropSpace r = ':' :: r') (hd : Cuts room (.value d) r' t) (ht : dropSpace t = '\x7d' :: rest) :
      Cuts room (.members [(k, d)]) s rest
  | nextMember {room : Nat} {s r r' t t' u rest : List Char} {k : Leaf} {d : Doc} {ms : List (Leaf × Doc)}
      (hk : stringLeaf s = (k, some r)) (hr : dropSpace r = ':' :: r') (hd : Cuts room (.value d) r' t)
      (ht : dropSpace t = ',' :: t') (hu : dropSpace t' = '"' :: u) (hms : Cuts room (.members ms) u rest) :
      Cuts room (.members ((k, d) :: ms)) s rest

/-! ### White space -/

@[simp] theorem dropSpace_dropSpace (s : List Char) : dropSpace (dropSpace s) = dropSpace s :=
  List.dropWhile_idempotent isSpace s

theorem parseValue_dropSpace (room fuel : Nat) (s : List Char) :
    parseValue room fuel (dropSpace s) = parseValue room fuel s := by
  cases fuel with
  | zero => simp only [parseValue]
  | succ fuel => simp only [parseValue, dropSpace_dropSpace]

theorem parseItems_dropSpace (room fuel : Nat) (s : List Char) :
    parseItems room fuel (dropSpace s) = parseItems room fuel s := by
  cases fuel with
  | zero => simp only [parseItems]
  | succ fuel => simp only [parseItems, parseValue_dropSpace]

/-! ### What is cut without fault is in the grammar -/

/-- With this fuel only what is in the grammar is cut without fault. -/
structure Sound (fuel : Nat) : Prop where
  value {room : Nat} {s rest : List Char} {d : Doc} (h : parseValue room fuel s = (d, some rest)) :
    Cuts room (.value d) s rest
  items {room : Nat} {s rest : List Char} {ds : List Doc} {close : Close}
    (h : parseItems room fuel s = (ds, close, some rest)) : close = .closed ∧ Cuts room (.items ds) s rest
  members {room : Nat} {s rest : List Char} {ms : List (Leaf × Doc)} {close : Close}
    (h : parseMembers room fuel s = (ms, close, some rest)) : close = .closed ∧ Cuts room (.members ms) s rest

theorem Sound.value_succ {room fuel : Nat} {s rest : List Char} {d : Doc} (hf : Sound fuel)
    (h : parseValue room (fuel + 1) s = (d, some rest)) : Cuts room (.value d) s rest := by
  rw [parseValue] at h
  split at h
  · next r hs =>
    split at h
    · cases h
    · next hr =>
      cases h
      exact .noItems hs hr
    · rw [parseItems_dropSpace] at h
      generalize hitems : parseItems (room - 1) fuel r = p at h
      obtain ⟨ds, close, o⟩ := p
      cases h
      obtain ⟨rfl, hcuts⟩ := hf.items hitems
      exact .list hs hcuts
  · next r hs =>
    split at h
    next ms close o hmembers =>
    cases h
    split at hmembers
    · cases hmembers
    · next hr =>
      cases hmembers
      exact .noMembers hs hr
    · next hr =>
      obtain ⟨rfl, hcuts⟩ := hf.members hmembers
      exact .object hs hr hcuts
    · cases hmembers
  · generalize hl : scalarLeaf (dropSpace s) = p at h
    obtain ⟨l, o⟩ := p
    cases h
    exact .scalar hl

theorem Sound.items_succ {room fuel : Nat} {s rest : List Char} {ds : List Doc} {close : Close} (hf : Sound fuel)
    (h : parseItems room (fuel + 1) s = (ds, close, some rest)) :
    close = .closed ∧ Cuts room (.items ds) s rest := by
  rw [parseItems] at h
  split at h
  · cases h
  · next d r hd =>
    have hd := hf.value hd
    split at h
    · cases h
    · next hr =>
      cases h
      exact ⟨rfl, .lastItem hd hr⟩
    · next r' hr =>
      split at h
      · cases h
      · cases h
      · rw [parseItems_dropSpace] at h
        generalize hitems : parseItems room fuel r' = p at h
        obtain ⟨ds, close, o⟩ := p
        cases h
        obtain ⟨rfl, hcuts⟩ := hf.items hitems
        exact ⟨rfl, .nextItem hd hr hcuts⟩
    · cases h

theorem Sound.members_succ {room fuel : Nat} {s rest : List Char} {ms : List (Leaf × Doc)} {close : Close}
    (hf : Sound fuel) (h : parseMembers room (fuel + 1) s = (ms, close, some rest)) :
    close = .closed ∧ Cuts room (.members ms) s rest := by
  rw [parseMembers] at h
  split at h
  · cases h
  · next k r hk =>
    split at h
    · cases h
    · next r' hr =>
      split at h
      · cases h
      · next d t hd =>
        have hd := hf.value hd
        split at h
        · cases h
        · next ht =>
          cases h
          exact ⟨rfl, .lastMember hk hr hd ht⟩
        · next t' ht =>
          split at h
          · cases h
          · next u hu =>
            generalize hmembers : parseMembers room fuel u = p at h
            obtain ⟨ms, close, o⟩ := p
            cases h
            obtain ⟨rfl, hcuts⟩ := hf.members hmembers
            exact ⟨rfl, .nextMember hk hr hd ht hu hcuts⟩
          · cases h
          · cases h
        · cases h
    · cases h

theorem sound (fuel : Nat) : Sound fuel := by
  induction fuel with
  | zero =>
    refine ⟨fun h => ?_, fun h => ?_, fun h => ?_⟩
    · simp [parseValue] at h
    · simp [parseItems] at h
    · simp [parseMembers] at h
  | succ fuel ih => exact ⟨ih.value_succ, ih.items_succ, ih.members_succ⟩

/-! ### What is in the grammar is cut without fault -/

theorem length_of_dropSpace {s r : List Char} {c : Char} (h : dropSpace s = c :: r) : r.length < s.length := by
  have := (List.dropWhile_suffix (l := s) isSpace).length_le
  rw [← dropSpace, h] at this
  exact this

theorem dropSpace_append {s r : List Char} {c : Char} (h : dropSpace s = c :: r) (q : List Char) :
    dropSpace (s ++ q) = c :: (r ++ q) := by
  have := (dropWhile_append_of_ne_nil (by rw [← dropSpace, h]; simp) q : _ ∧ (s ++ q).dropWhile isSpace = _).2
  rw [dropSpace, this, ← dropSpace, h, List.cons_append]

theorem Cuts.length_lt {room : Nat} {p : Phrase} {s rest : List Char} (h : Cuts room p s rest) :
    rest.length < s.length := by
  induction h with
  | @scalar _ s _ _ h =>
    exact Nat.lt_of_lt_of_le (scalarLeaf_append h []).1 (List.dropWhile_suffix isSpace).length_le
  | noItems h hr | noMembers h hr =>
    have := length_of_dropSpace h
    have := length_of_dropSpace hr
    omega
  | list h _ ih =>
    have := length_of_dropSpace h
    omega
  | object h hr _ ih =>
    have := length_of_dropSpace h
    have := length_of_dropSpace hr
    omega
  | lastItem _ hr ih =>
    have := length_of_dropSpace hr
    omega
  | nextItem _ hr _ ih ih' =>
    have := length_of_dropSpace hr
    omega
  | lastMember hk hr _ ht ih =>
    have := (stringLeaf_append hk []).1
    have := length_of_dropSpace hr
    have := length_of_dropSpace ht
    omega
  | nextMember hk hr _ ht hu _ ih ih' =>
    have := (stringLeaf_append hk []).1
    have := length_of_dropSpace hr
    have := length_of_dropSpace ht
    have := length_of_dropSpace hu
    omega

/-- No value begins with a closing bracket, and so no items do. -/
theorem Cuts.start {room : Nat} {p : Phrase} {s rest : List Char} (h : Cuts room p s rest)
    (hp : ∀ ms, p ≠ .members ms) : ∃ c r, dropSpace s = c :: r ∧ c ≠ ']' := by
  induction h with
  | @scalar _ s _ _ h =>
    cases hs : dropSpace s with
    | nil =>
      rw [hs] at h
      cases h
    | cons c r =>
      refine ⟨c, r, rfl, ?_⟩
      rintro rfl
      rw [hs] at h
      cases h
  | noItems h | list h | noMembers h | object h => exact ⟨_, _, h, by decide⟩
  | lastItem _ _ ih | nextItem _ _ _ ih => exact ih (by simp)
  | lastMember | nextMember => exact absurd rfl (hp _)

/-- The parser cuts the phrase, if it has fuel for twice the text. -/
def Phrase.Parsed (room : Nat) (s rest : List Char) : Phrase → Prop
  | .value d => ∀ fuel, 2 * s.length + 1 ≤ fuel → parseValue room fuel s = (d, some rest)
  | .items ds => ∀ fuel, 2 * s.length + 2 ≤ fuel → parseItems room fuel s = (ds, .closed, some rest)
  | .members ms => ∀ fuel, 2 * s.length + 2 ≤ fuel → parseMembers room fuel s = (ms, .closed, some rest)

/-- Items begin with something else than a closing bracket, and are cut from there. -/
theorem Cuts.parsed_items {room : Nat} {ds : List Doc} {s rest : List Char} (h : Cuts room (.items ds) s rest)
    (hparsed : (Phrase.items ds).Parsed room s rest) {fuel : Nat} (hfuel : 2 * s.length + 2 ≤ fuel) :
    ∃ c t, dropSpace s = c :: t ∧ c ≠ ']' ∧ parseItems room fuel (c :: t) = (ds, .closed, some rest) := by
  obtain ⟨c, t, hc, hne⟩ := h.start (by simp)
  refine ⟨c, t, hc, hne, ?_⟩
  rw [← hc, parseItems_dropSpace]
  exact hparsed fuel hfuel

theorem Cuts.parsed {room : Nat} {p : Phrase} {s rest : List Char} (h : Cuts room p s rest) :
    p.Parsed room s rest := by
  induction h with
  | @scalar room s rest l h =>
    intro fuel hfuel
    obtain _ | fuel := fuel
    · omega
    rw [parseValue]
    split
    · next r hs =>
      rw [hs] at h
      cases h
    · next r hs =>
      rw [hs] at h
      cases h
    · rw [h]
  | noItems h hr =>
    intro fuel hfuel
    obtain _ | fuel := fuel
    · omega
    simp only [parseValue, h, hr]
  | @list room s r rest ds h hr ih =>
    intro fuel hfuel
    obtain _ | fuel := fuel
    · omega
    have hlen := length_of_dropSpace h
    obtain ⟨c, t, hc, hne, hitems⟩ := hr.parsed_items ih (by omega : 2 * r.length + 2 ≤ fuel)
    simp only [parseValue, h, hc]
    split
    · next h => cases h
    · next h => exact absurd (List.cons.inj h).1 hne
    · rw [hitems]
  | noMembers h hr =>
    intro fuel hfuel
    obtain _ | fuel := fuel
    · omega
    simp only [parseValue, h, hr]
  | object h hr _ ih =>
    intro fuel hfuel
    obtain _ | fuel := fuel
    · omega
    have hlen := length_of_dropSpace h
    have hlen' := length_of_dropSpace hr
    simp only [parseValue, h, hr, ih fuel (by omega)]
  | lastItem hd hr ih =>
    intro fuel hfuel
    obtain _ | fuel := fuel
    · omega
    simp only [parseItems, ih fuel (by omega), hr]
  | @nextItem room s r r' rest d ds hd hr hds ih ih' =>
    intro fuel hfuel
    obtain _ | fuel := fuel
    · omega
    have hlen := hd.length_lt
    have hlen' := length_of_dropSpace hr
    obtain ⟨c, t, hc, hne, hitems⟩ := hds.parsed_items ih' (by omega : 2 * r'.length + 2 ≤ fuel)
    simp only [parseItems, ih fuel (by omega), hr, hc]
    split
    · next h => cases h
    · next h => exact absurd (List.cons.inj h).1 hne
    · rw [hitems]
  | lastMember hk hr hd ht ih =>
    intro fuel hfuel
    obtain _ | fuel := fuel
    · omega
    have hlen := (stringLeaf_append hk []).1
    have hlen' := length_of_dropSpace hr
    simp only [parseMembers, hk, hr, ih fuel (by omega), ht]
  | nextMember hk hr hd ht hu hms ih ih' =>
    intro fuel hfuel
    obtain _ | fuel := fuel
    · omega
    have hlen := (stringLeaf_append hk []).1
    have hlen' := length_of_dropSpace hr
    have hlen'' := hd.length_lt
    have hlen3 := length_of_dropSpace ht
    have hlen4 := length_of_dropSpace hu
    simp only [parseMembers, hk, hr, ih fuel (by omega), ht, hu, ih' fuel (by omega)]

/-- What is cut without fault and is more than a scalar does not depend on what follows. -/
theorem Cuts.append {room : Nat} {p : Phrase} {s rest : List Char} (h : Cuts room p s rest)
    (hp : ∀ l, p = .value (.leaf l) → rest ≠ []) (q : List Char) : Cuts room p (s ++ q) (rest ++ q) := by
  have hnext : ∀ {s r : List Char} {c : Char}, dropSpace s = c :: r → s ≠ [] := by
    rintro _ _ _ h rfl
    cases h
  induction h with
  | @scalar room s rest l h =>
    obtain ⟨c, r, hs, -⟩ := (@Cuts.scalar room _ _ _ h).start (by simp)
    -- the only place where the rest matters: a number at the end of a text may go on
    refine .scalar ?_
    rw [dropSpace_append hs, ← List.cons_append, ← hs]
    exact (scalarLeaf_append h q).2 (hp l rfl)
  | noItems h hr => exact .noItems (dropSpace_append h q) (dropSpace_append hr q)
  | list h _ ih => exact .list (dropSpace_append h q) (ih (by simp))
  | noMembers h hr => exact .noMembers (dropSpace_append h q) (dropSpace_append hr q)
  | object h hr _ ih => exact .object (dropSpace_append h q) (dropSpace_append hr q) (ih (by simp))
  | lastItem _ hr ih => exact .lastItem (ih fun _ _ => hnext hr) (dropSpace_append hr q)
  | nextItem _ hr _ ih ih' => exact .nextItem (ih fun _ _ => hnext hr) (dropSpace_append hr q) (ih' (by simp))
  | lastMember hk hr _ ht ih =>
    exact .lastMember (stringLeaf_append hk q).2 (dropSpace_append hr q) (ih fun _ _ => hnext ht)
      (dropSpace_append ht q)
  | nextMember hk hr _ ht hu _ ih ih' =>
    exact .nextMember (stringLeaf_append hk q).2 (dropSpace_append hr q) (ih fun _ _ => hnext ht)
      (dropSpace_append ht q) (dropSpace_append hu q) (ih' (by simp))

end ContractMigration.Json
