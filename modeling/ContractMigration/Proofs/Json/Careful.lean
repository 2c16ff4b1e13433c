import ContractMigration.Proofs.Json.Faults

/-! Readers that never take a faulty document. Readers of scalars are such readers, and lists, records and choices of
such readers are such readers again; so is the reader of any value. -/

namespace ContractMigration.Json

variable {α β : Type}

/-- There is no result. -/
def Fails (x : Except Error α) : Prop := ∃ e, x = .error e

theorem fails_error (e : Error) : Fails (.error e : Except Error α) := ⟨e, rfl⟩

theorem Fails.bind {x : Except Error α} (h : Fails x) (f : α → Except Error β) : Fails (x >>= f) := by
  obtain ⟨e, rfl⟩ := h
  exact ⟨e, rfl⟩

theorem Fails.map {x : Except Error α} (h : Fails x) (f : α → β) : Fails (x.map f) := by
  obtain ⟨e, rfl⟩ := h
  exact ⟨e, rfl⟩

theorem bind_eq_ok {x : Except Error α} {f : α → Except Error β} {b : β} (h : x >>= f = .ok b) :
    ∃ a, x = .ok a ∧ f a = .ok b := by
  cases x with
  | error e => cases h
  | ok a => exact ⟨a, rfl, h⟩

/-- What fails after the result of a first part fails as a whole. -/
theorem fails_bind_of_ok {x : Except Error α} {f : α → Except Error β} (h : ∀ a, x = .ok a → Fails (f a)) :
    Fails (x >>= f) := by
  cases x with
  | error e => exact ⟨e, rfl⟩
  | ok a => exact h a rfl

theorem fails_bind {x : Except Error α} {f : α → Except Error β} (h : ∀ a, Fails (f a)) : Fails (x >>= f) :=
  fails_bind_of_ok fun a _ => h a

theorem fails_raise {o : Option Error} (h : o ≠ none) : Fails (raise o) := by
  cases o with
  | none => contradiction
  | some e => exact ⟨e, rfl⟩

theorem fails_refuse (d : Doc) (wanted : String) : Fails (d.refuse wanted : Except Error α) :=
  fails_bind fun _ => fails_error _

theorem fails_mapM {r : Reader α} {items : List Doc} {d : Doc} (hd : d ∈ items) (h : Fails (r d)) :
    Fails (items.mapM r) := by
  induction items with
  | nil => cases hd
  | cons d' items ih =>
    rw [List.mapM_cons]
    obtain rfl | hd := List.mem_cons.1 hd
    · exact h.bind _
    · exact fails_bind fun _ => (ih hd).bind _

theorem fails_foldlM {σ ι : Type} {f : σ → ι → Except Error σ} {l : List ι} {a : ι} (ha : a ∈ l)
    (h : ∀ s, Fails (f s a)) (s : σ) : Fails (l.foldlM f s) := by
  induction l generalizing s with
  | nil => cases ha
  | cons b l ih =>
    rw [List.foldlM_cons]
    obtain rfl | ha := List.mem_cons.1 ha
    · exact (h s).bind _
    · exact fails_bind fun s' => ih ha s'

/-! ### Readers of scalars -/

/-- The reader takes no faulty document. -/
def Careful (r : Doc → Except Error α) : Prop := ∀ d, d.Broken → Fails (r d)

theorem Leaf.Broken.key {l : Leaf} (h : l.Broken) : Fails l.key := by
  obtain ⟨e, he⟩ := h.taken
  exact ⟨e, by rw [Leaf.key, he]; rfl⟩

/-- What has a value is not broken. -/
theorem not_broken_ok {start : Start} {value : Scalar} {skipped : Option Error} :
    ¬(Doc.leaf ⟨start, .ok value, skipped⟩).Broken := by
  intro h
  cases h with
  | leaf h =>
    obtain ⟨e, he⟩ := h.taken
    cases he

theorem careful_stringAs (wanted : String) : Careful (stringAs wanted) := by
  intro d hd
  unfold stringAs
  split
  · exact absurd hd not_broken_ok
  · exact fails_refuse ..

theorem careful_natural (wanted : String) : Careful (natural wanted) := by
  intro d hd
  unfold natural
  split
  · exact absurd hd not_broken_ok
  · exact fails_error _
  · exact fails_refuse ..

theorem careful_unit : Careful unit := by
  intro d hd
  unfold unit
  split
  · exact absurd hd not_broken_ok
  · exact fails_refuse ..

theorem careful_nullable {r : Reader α} (hr : Careful r) : Careful (nullable r) := by
  intro d hd
  unfold nullable
  split
  · cases hd with
    | leaf h =>
      exact Fails.map h.taken _
  · exact (hr d hd).map _

/-! ### Lists and choices -/

theorem careful_listAs (wanted : String) {r : Reader α} (hr : Careful r) : Careful (listAs wanted r) := by
  intro d hd
  unfold listAs
  split
  · cases hd with
    | item hd h => exact (fails_mapM hd (hr _ h)).bind _
    | list hread => exact fails_bind fun _ => (fails_raise hread).bind _
  · exact fails_error _
  · exact fails_refuse ..

theorem careful_variant (cases : List (Case α)) (otherwise : Option α) : Careful (variant cases otherwise) := by
  intro d hd
  unfold variant
  split
  · split
    · exact fails_error _
    · exact fails_error _
    · cases hd with
      | leaf h => exact h.key.bind _
  · exact fails_bind fun _ => fails_error _
  · next k d rest close =>
    -- a second member is refused whatever it is, so the fault is at the first one or at the closing bracket
    cases rest with
    | cons m rest => exact fails_bind fun _ => fails_bind fun _ => fails_bind fun _ => (fails_error _).bind _
    | nil =>
      cases hd with
      | key hm h =>
        obtain rfl := List.mem_singleton.1 hm
        exact h.key.bind _
      | member hm h =>
        obtain rfl := List.mem_singleton.1 hm
        exact fails_bind fun _ => fails_bind fun _ => (careful_unit d h).bind _
      | object _ _ hvariant =>
        exact fails_bind fun _ => fails_bind fun _ => fails_bind fun _ => (fails_raise hvariant).bind _
  · exact fails_error _
  · exact fails_error _

/-! ### Any value -/

theorem fails_skipItems {items : List Doc} {d : Doc} (hd : d ∈ items) (h : Fails d.skip) : Fails (skipItems items) := by
  induction items with
  | nil => cases hd
  | cons d' items ih =>
    rw [skipItems]
    obtain rfl | hd := List.mem_cons.1 hd
    · exact h.bind _
    · exact fails_bind fun _ => ih hd

theorem fails_skipMembers {members : List (Leaf × Doc)} {m : Leaf × Doc} (hm : m ∈ members)
    (h : m.1.Broken ∨ Fails m.2.skip) : Fails (skipMembers members) := by
  induction members with
  | nil => cases hm
  | cons m' members ih =>
    rw [skipMembers]
    obtain rfl | hm := List.mem_cons.1 hm
    · obtain h | h := h
      · exact (fails_raise h.skipped).bind _
      · exact fails_bind fun _ => h.bind _
    · exact fails_bind fun _ => fails_bind fun _ => ih hm

theorem careful_skip : Careful Doc.skip := by
  intro d hd
  induction hd with
  | leaf h => exact fails_raise h.skipped
  | item hd _ ih => exact (fails_skipItems hd ih).bind _
  | list _ hskip => exact fails_bind fun _ => fails_raise hskip
  | key hm h => exact (fails_skipMembers hm (.inl h)).bind _
  | member hm _ ih => exact (fails_skipMembers hm (.inr ih)).bind _
  | object _ hskip => exact fails_bind fun _ => fails_raise hskip
  | deep _ ih => exact ih

theorem fails_itemValues {items : List Doc} {d : Doc} (hd : d ∈ items) (h : Fails d.value) :
    Fails (itemValues items) := by
  induction items with
  | nil => cases hd
  | cons d' items ih =>
    rw [itemValues]
    obtain rfl | hd := List.mem_cons.1 hd
    · exact h.bind _
    · exact fails_bind fun _ => (ih hd).bind _

theorem fails_memberValues {members : List (Leaf × Doc)} {m : Leaf × Doc} (hm : m ∈ members)
    (h : m.1.Broken ∨ Fails m.2.value) : Fails (memberValues members) := by
  induction members with
  | nil => cases hm
  | cons m' members ih =>
    rw [memberValues]
    obtain rfl | hm := List.mem_cons.1 hm
    · obtain h | h := h
      · exact h.key.bind _
      · exact fails_bind fun _ => h.bind _
    · exact fails_bind fun _ => fails_bind fun _ => (ih hm).bind _

theorem careful_value : Careful Doc.value := by
  intro d hd
  induction hd with
  | leaf h => exact Fails.map h.taken _
  | item hd _ ih => exact (fails_itemValues hd ih).bind _
  | list hread => exact fails_bind fun _ => (fails_raise hread).bind _
  | key hm h => exact (fails_memberValues hm (.inl h)).bind _
  | member hm _ ih => exact (fails_memberValues hm (.inr ih)).bind _
  | object hread => exact fails_bind fun _ => (fails_raise hread).bind _
  | deep => exact fails_error _

/-! ### Records -/

/-- Members are read by careful readers, whether they stand by name or by place. -/
structure Fields.Careful (fs : Fields α) : Prop where
  put : ∀ k s r, fs.put k s = some r → Json.Careful r
  take : ∀ short s x s', fs.take short s = .ok (x, s') →
    ∃ used, s.items = used ++ s'.items ∧ s'.close = s.close ∧ ∀ d ∈ used, ¬ d.Broken

namespace Fields

/-- How two parts of a record take a member: the first that knows it does. -/
theorem put_seq (f : Fields (α → β)) (x : Fields α) (k : String) (s : f.Slots) (t : x.Slots) :
    (f <*> x).put k (s, t) = match f.put k s with
      | some r => some fun d => (r d).map (·, t)
      | none => (x.put k t).map fun r d => (r d).map (s, ·) := rfl

theorem Careful.map {x : Fields α} (hx : x.Careful) (f : α → β) : (f <$> x).Careful where
  put := hx.put
  take := hx.take

theorem Careful.seq {f : Fields (α → β)} {x : Fields α} (hf : f.Careful) (hx : x.Careful) : (f <*> x).Careful where
  put := by
    rintro k ⟨s, t⟩ r h
    rw [put_seq] at h
    split at h
    · next r' hr =>
      cases h
      exact fun d hd => (hf.put _ _ _ hr d hd).map _
    · next hr =>
      obtain ⟨r', hr', rfl⟩ := Option.map_eq_some_iff.1 h
      exact fun d hd => (hx.put _ _ _ hr' d hd).map _
  take := by
    intro short s y s' h
    obtain ⟨⟨a, s₁⟩, hfirst, h⟩ := bind_eq_ok h
    obtain ⟨⟨b, s₂⟩, hsecond, h⟩ := bind_eq_ok h
    cases h
    obtain ⟨used, hitems, hclose, hused⟩ := hf.take _ _ _ _ hfirst
    obtain ⟨used', hitems', hclose', hused'⟩ := hx.take _ _ _ _ hsecond
    refine ⟨used ++ used', ?_, hclose'.trans hclose, ?_⟩
    · rw [hitems, hitems', List.append_assoc]
    · intro d hd
      obtain hd | hd := List.mem_append.1 hd
      · exact hused d hd
      · exact hused' d hd

theorem careful_one (name : String) {r : Reader α} (hr : Json.Careful r) (missing : Option α) :
    (one name r missing).Careful where
  put := by
    intro k s r' h
    unfold one at h
    dsimp only at h
    split at h
    · cases h
      intro d hd
      dsimp only
      split
      · exact fails_error _
      · exact (hr d hd).map _
    · cases h
  take := by
    intro short s y s' h
    obtain ⟨o, hnext, h⟩ := bind_eq_ok h
    obtain ⟨items, close, turn⟩ := s
    cases items with
    | nil =>
      obtain ⟨_, _, hnone⟩ := bind_eq_ok hnext
      cases hnone
      dsimp only at h
      split at h
      · cases h
        exact ⟨[], rfl, rfl, by simp⟩
      · cases h
    | cons d items =>
      cases hnext
      obtain ⟨a, ha, h⟩ := bind_eq_ok h
      cases h
      refine ⟨[d], rfl, rfl, fun d' hd' hbroken => ?_⟩
      obtain rfl := List.mem_singleton.1 hd'
      obtain ⟨e, he⟩ := hr d' hbroken
      rw [he] at ha
      cases ha

end Fields

theorem careful_record (name : String) {fs : Fields α} (hfs : fs.Careful) : Careful (record name fs) := by
  intro d hd
  unfold record
  split
  · next members close =>
    cases hd with
    | key hm h => exact (fails_foldlM hm (fun s => h.key.bind _) _).bind _
    | member hm h =>
      refine (fails_foldlM hm (fun s => fails_bind fun k => ?_) _).bind _
      split
      · next r hr => exact hfs.put _ _ _ hr _ h
      · exact (careful_skip _ h).bind _
    | object hread => exact fails_bind fun _ => (fails_raise hread).bind _
  · next items close =>
    refine fails_bind_of_ok fun ⟨x, s⟩ htake => fails_bind fun a => ?_
    obtain ⟨used, hitems, hclose, hused⟩ := hfs.take _ _ _ _ htake
    -- items that are left are refused; if none is left, all were read and the fault is at the closing bracket
    obtain ⟨left, close', turn⟩ := s
    obtain rfl : close' = close := hclose
    cases left with
    | cons d left => exact (fails_error _).bind _
    | nil =>
      obtain rfl : items = used := hitems.trans (List.append_nil used)
      cases hd with
      | item hd h => exact absurd h (hused _ hd)
      | list _ _ hearly => exact (fails_raise hearly).bind _
  · exact fails_error _
  · exact fails_refuse ..

end ContractMigration.Json
