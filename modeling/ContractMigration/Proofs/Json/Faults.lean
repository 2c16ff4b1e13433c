import ContractMigration.Json.Reader
import ContractMigration.Proofs.Json.Locality

/-! Documents of texts that are faulty inside, and the readers that notice: every fault is met by whoever reads or
passes over the place where it is. -/

namespace ContractMigration.Json

/-- Neither a reader that takes the scalar nor one that passes over it gets on. -/
structure Leaf.Broken (l : Leaf) : Prop where
  taken : ∃ e, l.taken = .error e
  skipped : l.skipped ≠ none

/-- A fault stands somewhere in the document. -/
inductive Doc.Broken : Doc → Prop
  | leaf {l : Leaf} (h : l.Broken) : Broken (.leaf l)
  | item {d : Doc} {items : List Doc} {close : Close} (hd : d ∈ items) (h : Broken d) : Broken (.list items close)
  | list {items : List Doc} {close : Close} (hread : close.read ≠ none) (hskip : close.skip ≠ none)
      (hearly : close.early ≠ none) : Broken (.list items close)
  | key {m : Leaf × Doc} {members : List (Leaf × Doc)} {close : Close} (hm : m ∈ members) (h : m.1.Broken) :
      Broken (.object members close)
  | member {m : Leaf × Doc} {members : List (Leaf × Doc)} {close : Close} (hm : m ∈ members) (h : Broken m.2) :
      Broken (.object members close)
  | object {members : List (Leaf × Doc)} {close : Close} (hread : close.read ≠ none) (hskip : close.skip ≠ none)
      (hvariant : close.variant ≠ none) : Broken (.object members close)
  | deep {d : Doc} (h : Broken d) : Broken (.deep d)

/-! ### Faulty scalars -/

theorem joinUnits_fault (e : Error) (ps : List Piece) : ∃ e', joinUnits (some e) ps = .error e' := by
  fun_induction joinUnits (some e) ps with
  | case1 h => cases h
  | case3 c r ih | case5 n ht hl m r hm ih | case11 n r ht hl ih =>
    obtain ⟨e', he⟩ := ih
    exact ⟨e', by rw [he]; rfl⟩
  | _ => exact ⟨_, rfl⟩

/-- A scalar is cut off and stops nobody who passes over it, or it is broken and has no end. -/
inductive CutOrBroken : Leaf × Option (List Char) → Prop
  | cut (start : Start) (taken : Except Error Scalar) (rest : List Char) : CutOrBroken (⟨start, taken, none⟩, some rest)
  | broken {l : Leaf} (h : l.Broken) : CutOrBroken (l, none)

namespace CutOrBroken

variable {p : Leaf × Option (List Char)} {l : Leaf}

theorem fault (h : CutOrBroken p) (hp : p = (l, none)) : l.Broken := by
  subst hp
  cases h with
  | broken h => exact h

theorem error (start : Start) (taken skipped : Error) : CutOrBroken (⟨start, .error taken, some skipped⟩, none) :=
  .broken ⟨⟨taken, rfl⟩, by simp⟩

end CutOrBroken

theorem cutOrBroken_string (s : List Char) : CutOrBroken (stringLeaf s) := by
  unfold stringLeaf
  split
  · exact .cut ..
  · next ps e hs =>
    obtain ⟨e', he⟩ := joinUnits_fault e ps
    exact .broken ⟨⟨e', by rw [he]; rfl⟩, by simp⟩

theorem cutOrBroken_word (start : Start) (letters s : List Char) (value : Scalar) :
    CutOrBroken (wordLeaf start letters value s) := by
  induction letters generalizing s with
  | nil => exact .cut ..
  | cons a letters ih =>
    cases s with
    | nil => exact .error ..
    | cons c s =>
      rw [wordLeaf]
      split
      · exact ih s
      · exact .error ..

theorem cutOrBroken_brokenNumber (s : List Char) : CutOrBroken (brokenNumber s) := .error ..

theorem cutOrBroken_exponent (finish : Option (Bool × List Char) → Except Error Scalar) (s : List Char) :
    CutOrBroken (numberExponent finish s) := by
  cases s with
  | nil => exact .cut ..
  | cons c r =>
    rw [numberExponent_cons]
    split
    · unfold exponentDigits
      split
      · exact cutOrBroken_brokenNumber _
      · exact .cut ..
    · exact .cut ..

theorem cutOrBroken_number (s : List Char) : CutOrBroken (numberLeaf s) := by
  have hfraction : ∀ negative whole s, CutOrBroken (numberFraction negative whole s) := by
    intro negative whole s
    unfold numberFraction
    split
    · split
      · exact cutOrBroken_brokenNumber _
      · exact cutOrBroken_exponent ..
    · exact cutOrBroken_exponent ..
  have hunsigned : ∀ negative s, CutOrBroken (unsignedNumber negative s) := by
    intro negative s
    unfold unsignedNumber
    split
    · exact cutOrBroken_brokenNumber _
    · exact .error ..
    · exact hfraction ..
  rw [numberLeaf_eq]
  split
  · exact hunsigned ..
  · exact hunsigned ..

theorem cutOrBroken_scalar (s : List Char) : CutOrBroken (scalarLeaf s) := by
  unfold scalarLeaf
  split
  · exact .error ..
  · exact cutOrBroken_string _
  · exact cutOrBroken_word ..
  · exact cutOrBroken_word ..
  · exact cutOrBroken_word ..
  · split
    · exact cutOrBroken_number _
    · exact .error ..

/-! ### What has no end is faulty -/

theorem Doc.broken_fault (e : Error) : (Doc.fault e).Broken := .leaf ⟨⟨e, rfl⟩, by simp⟩

theorem Doc.Broken.guardDepth {d : Doc} (h : d.Broken) (room : Nat) : (Json.guardDepth room d).Broken := by
  unfold Json.guardDepth
  split
  · exact .deep h
  · exact h

theorem Doc.Broken.cons_item {items : List Doc} {close : Close} (h : (Doc.list items close).Broken) (d : Doc) :
    (Doc.list (d :: items) close).Broken := by
  cases h with
  | item hd h => exact .item (List.mem_cons_of_mem d hd) h
  | list hread hskip hearly => exact .list hread hskip hearly

theorem Doc.Broken.cons_member {members : List (Leaf × Doc)} {close : Close} (h : (Doc.object members close).Broken)
    (m : Leaf × Doc) : (Doc.object (m :: members) close).Broken := by
  cases h with
  | key hm h => exact .key (List.mem_cons_of_mem m hm) h
  | member hm h => exact .member (List.mem_cons_of_mem m hm) h
  | object hread hskip hvariant => exact .object hread hskip hvariant

theorem Doc.broken_same (items : List Doc) (e early : Error) : (Doc.list items (.same e early)).Broken :=
  .list (by simp [Close.same]) (by simp [Close.same]) (by simp [Close.same])

/-- With this fuel a text that is not cut to its end leaves a faulty document. -/
structure Faulty (fuel : Nat) : Prop where
  value {room : Nat} {s : List Char} {d : Doc} (h : parseValue room fuel s = (d, none)) : d.Broken
  items {room : Nat} {s : List Char} {ds : List Doc} {close : Close} (h : parseItems room fuel s = (ds, close, none)) :
    (Doc.list ds close).Broken
  members {room : Nat} {s : List Char} {ms : List (Leaf × Doc)} {close : Close}
    (h : parseMembers room fuel s = (ms, close, none)) : (Doc.object ms close).Broken

theorem Faulty.value_succ {room fuel : Nat} {s : List Char} {d : Doc} (hf : Faulty fuel)
    (h : parseValue room (fuel + 1) s = (d, none)) : d.Broken := by
  rw [parseValue] at h
  split at h
  · split at h
    · cases h
      exact (Doc.broken_same ..).guardDepth room
    · cases h
    · next r _ _ _ _ =>
      generalize hitems : parseItems (room - 1) fuel (dropSpace r) = p at h
      obtain ⟨ds, close, o⟩ := p
      cases h
      exact (hf.items hitems).guardDepth room
  · split at h
    next ms close o hmembers =>
    cases h
    split at hmembers
    · cases hmembers
      exact (Doc.Broken.object (by simp) (by simp) (by simp)).guardDepth room
    · cases hmembers
    · exact (hf.members hmembers).guardDepth room
    · cases hmembers
      exact (Doc.Broken.object (by simp) (by simp) (by simp)).guardDepth room
  · generalize hl : scalarLeaf (dropSpace s) = p at h
    obtain ⟨l, o⟩ := p
    cases h
    exact .leaf ((cutOrBroken_scalar _).fault hl)

theorem Faulty.items_succ {room fuel : Nat} {s : List Char} {ds : List Doc} {close : Close} (hf : Faulty fuel)
    (h : parseItems room (fuel + 1) s = (ds, close, none)) : (Doc.list ds close).Broken := by
  rw [parseItems] at h
  split at h
  · next d hd =>
    cases h
    exact .item List.mem_cons_self (hf.value hd)
  · split at h
    · cases h
      exact Doc.broken_same ..
    · cases h
    · split at h
      · cases h
        exact Doc.broken_same ..
      · cases h
        exact .list (by simp) (by simp) (by simp)
      · next d _ _ _ r _ _ _ _ =>
        generalize hitems : parseItems room fuel (dropSpace r) = p at h
        obtain ⟨ds, close, o⟩ := p
        cases h
        exact (hf.items hitems).cons_item d
    · cases h
      exact Doc.broken_same ..

theorem Faulty.members_succ {room fuel : Nat} {s : List Char} {ms : List (Leaf × Doc)} {close : Close}
    (hf : Faulty fuel) (h : parseMembers room (fuel + 1) s = (ms, close, none)) : (Doc.object ms close).Broken := by
  rw [parseMembers] at h
  split at h
  · next k hk =>
    cases h
    exact .key List.mem_cons_self ((cutOrBroken_string _).fault hk)
  · split at h
    · cases h
      exact .member List.mem_cons_self (Doc.broken_fault _)
    · split at h
      · next d hd =>
        cases h
        exact .member List.mem_cons_self (hf.value hd)
      · split at h
        · cases h
          exact .object (by simp) (by simp) (by simp)
        · cases h
        · split at h
          · cases h
            exact .object (by simp) (by simp) (by simp)
          · next u _ =>
            generalize hmembers : parseMembers room fuel u = p at h
            obtain ⟨ms, close, o⟩ := p
            cases h
            exact (hf.members hmembers).cons_member _
          · cases h
            exact .object (by simp) (by simp) (by simp)
          · cases h
            exact .object (by simp [Close.same]) (by simp [Close.same]) (by simp [Close.same])
        · cases h
          exact .object (by simp [Close.same]) (by simp [Close.same]) (by simp [Close.same])
    · cases h
      exact .member List.mem_cons_self (Doc.broken_fault _)

theorem faulty (fuel : Nat) : Faulty fuel := by
  induction fuel with
  | zero =>
    refine ⟨fun h => ?_, fun h => ?_, fun h => ?_⟩
    · rw [parseValue] at h
      cases h
      exact Doc.broken_fault _
    · rw [parseItems] at h
      cases h
      exact Doc.broken_same ..
    · rw [parseMembers] at h
      cases h
      exact .object (by simp [Close.same]) (by simp [Close.same]) (by simp [Close.same])
  | succ fuel ih => exact ⟨ih.value_succ, ih.items_succ, ih.members_succ⟩

end ContractMigration.Json
