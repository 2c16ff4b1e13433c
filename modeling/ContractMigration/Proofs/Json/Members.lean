import ContractMigration.Proofs.Json.Records

/-! What a record was read from. A record that is read from an object has, for each member that may be missing, what is
read from the member of that name, or the default if there is none; and the object has no second member of that name.
Members of other names are passed over. -/

namespace ContractMigration.Json

variable {α β : Type}

mutual

/-- A value can be passed over. -/
theorem skip_doc : ∀ v : Value, v.doc.skip = .ok ()
  | .null | .bool _ | .nat _ | .negative _ | .float _ | .string _ => rfl
  | .list items => by
    rw [Value.doc, Doc.skip, skipItems_docs items]
    rfl
  | .object members => by
    rw [Value.doc, Doc.skip, skipMembers_docs members]
    rfl

theorem skipItems_docs : ∀ items : List Value, skipItems (itemDocs items) = .ok ()
  | [] => rfl
  | v :: r => by
    rw [itemDocs, skipItems, skip_doc v, skipItems_docs r]
    rfl

theorem skipMembers_docs : ∀ members : List (String × Value), skipMembers (memberDocs members) = .ok ()
  | [] => rfl
  | (k, v) :: r => by
    rw [memberDocs, skipMembers, skip_doc v, skipMembers_docs r]
    rfl

end

theorem map_eq_ok {x : Except Error α} {f : α → β} {b : β} (h : x.map f = .ok b) : ∃ a, x = .ok a ∧ f a = b := by
  cases x with
  | error e => cases h
  | ok a => exact ⟨a, rfl, Except.ok.inj h⟩

theorem natural_doc_eq_ok_iff {wanted : String} {v : Value} {n : ℕ} : natural wanted v.doc = .ok n ↔ v = .nat n := by
  cases v with
  | nat m => simp [natural, Value.doc, Doc.scalar]
  | _ => exact ⟨nofun, nofun⟩

/-- What is read for a member that may be missing. -/
inductive MemberOr (ms : List (String × Value)) (name : String) (r : Reader α) (default : α) : α → Prop
  | found {v : Value} {a : α} (h : ms.lookup name = some v) (hr : r v.doc = .ok a) : MemberOr ms name r default a
  | missing (h : ms.lookup name = none) : MemberOr ms name r default default

namespace Fields

/-- Members of an object taken one after the other: those that are known go into the slots, the others are passed over. -/
inductive Takes (fs : Fields α) : fs.Slots → List (String × Value) → fs.Slots → Prop
  | nil (s : fs.Slots) : Takes fs s [] s
  | known {s s₁ s₂ : fs.Slots} {k : String} {v : Value} {ms : List (String × Value)} {r : Doc → Except Error fs.Slots}
      (hput : fs.put k s = some r) (hr : r v.doc = .ok s₁) (h : Takes fs s₁ ms s₂) : Takes fs s ((k, v) :: ms) s₂
  | unknown {s s₂ : fs.Slots} {k : String} {v : Value} {ms : List (String × Value)} (hput : fs.put k s = none)
      (h : Takes fs s ms s₂) : Takes fs s ((k, v) :: ms) s₂

theorem takes_of_foldlM {fs : Fields α} {ms : List (String × Value)} {s s' : fs.Slots}
    (h : (memberDocs ms).foldlM fs.step s = .ok s') : fs.Takes s ms s' := by
  induction ms generalizing s with
  | nil =>
    obtain rfl := Except.ok.inj h
    exact .nil s
  | cons m ms ih =>
    obtain ⟨k, v⟩ := m
    rw [memberDocs, List.foldlM_cons] at h
    obtain ⟨s₁, hstep, hrest⟩ := bind_eq_ok h
    have hkey : Leaf.key ⟨.quote, .ok (.string k), none⟩ = .ok k := rfl
    simp only [step, hkey, bind, Except.bind] at hstep
    rcases hput : fs.put k s with _ | r <;> rw [hput] at hstep
    · simp only [skip_doc v] at hstep
      obtain rfl := Except.ok.inj hstep
      exact .unknown hput (ih hrest)
    · exact .known hput hstep (ih hrest)

/-- Whatever is read from the members of an object satisfies `P`. -/
structure Yields (fs : Fields α) (P : List (String × Value) → α → Prop) : Prop where
  unknown : ∀ k s, k ∉ fs.names → fs.put k s = none
  holds : ∀ ms s a, fs.Takes fs.empty ms s → fs.finish s = .ok a → P ms a

theorem Takes.of_map {x : Fields α} {f : α → β} {ms : List (String × Value)} {s s' : (f <$> x).Slots}
    (h : (f <$> x).Takes s ms s') : @Takes _ x s ms s' := by
  induction h with
  | nil s => exact @Takes.nil _ x s
  | @known s s₁ s₂ k v ms r hput hr _ ih => exact @Takes.known _ x s s₁ s₂ k v ms r hput hr ih
  | @unknown s s₂ k v ms hput _ ih => exact @Takes.unknown _ x s s₂ k v ms hput ih

theorem Yields.map {x : Fields α} {P : List (String × Value) → α → Prop} (hx : x.Yields P) (f : α → β) :
    (f <$> x).Yields fun ms b => ∃ a, P ms a ∧ f a = b where
  unknown := hx.unknown
  holds := by
    intro ms s b htakes hfinish
    obtain ⟨a, ha, hfa⟩ := map_eq_ok hfinish
    exact ⟨a, hx.holds ms s a htakes.of_map ha, hfa⟩

/-- Two parts of a record with different names take the same members, each as if it were alone. -/
theorem Takes.of_seq {f : Fields (α → β)} {x : Fields α} (hf : ∀ k s, k ∉ f.names → f.put k s = none)
    (hx : ∀ k s, k ∉ x.names → x.put k s = none) (hnames : ∀ k ∈ x.names, k ∉ f.names)
    {ms : List (String × Value)} {s s' : (f <*> x).Slots} (h : (f <*> x).Takes s ms s') :
    f.Takes (Prod.fst s) ms (Prod.fst s') ∧ x.Takes (Prod.snd s) ms (Prod.snd s') := by
  induction h with
  | nil s => exact ⟨.nil _, .nil _⟩
  | @known s s₁ s₂ k v ms r hput hr _ ih =>
    obtain ⟨s, t⟩ := s
    obtain ⟨ihf, ihx⟩ := ih
    rw [put_seq] at hput
    rcases hs : f.put k s with _ | r' <;> rw [hs] at hput
    · obtain ⟨r', ht, rfl⟩ := Option.map_eq_some_iff.mp hput
      obtain ⟨t₁, hr', rfl⟩ := map_eq_ok hr
      exact ⟨.unknown hs ihf, .known ht hr' ihx⟩
    · obtain rfl := Option.some.inj hput
      have hk : k ∈ f.names := by
        by_contra hk
        rw [hf k s hk] at hs
        cases hs
      have ht : x.put k t = none := hx k t fun hk' => hnames k hk' hk
      obtain ⟨s', hr', rfl⟩ := map_eq_ok hr
      exact ⟨.known hs hr' ihf, .unknown ht ihx⟩
  | @unknown s s₂ k v ms hput _ ih =>
    obtain ⟨s, t⟩ := s
    obtain ⟨ihf, ihx⟩ := ih
    rw [put_seq] at hput
    rcases hs : f.put k s with _ | r' <;> rw [hs] at hput
    · exact ⟨.unknown hs ihf, .unknown (Option.map_eq_none_iff.mp hput) ihx⟩
    · cases hput

theorem Yields.seq {f : Fields (α → β)} {x : Fields α} {P : List (String × Value) → (α → β) → Prop}
    {Q : List (String × Value) → α → Prop} (hf : f.Yields P) (hx : x.Yields Q) (hnames : ∀ k ∈ x.names, k ∉ f.names) :
    (f <*> x).Yields fun ms b => ∃ g, P ms g ∧ ∃ a, Q ms a ∧ g a = b where
  unknown := put_seq_eq_none hf.unknown hx.unknown
  holds := by
    intro ms s b htakes hfinish
    obtain ⟨hs, ht⟩ := htakes.of_seq hf.unknown hx.unknown hnames
    obtain ⟨g, hg, hfinish⟩ := bind_eq_ok hfinish
    obtain ⟨a, ha, hb⟩ := bind_eq_ok hfinish
    exact ⟨g, hf.holds ms _ g hs hg, a, hx.holds ms _ a ht ha, Except.ok.inj hb⟩

/-- A slot is filled by the first member of its name, and a second one is an error. -/
theorem Takes.of_one {name : String} {r : Reader α} {missing : Option α} {ms : List (String × Value)}
    {s s' : (one name r missing).Slots} (h : (one name r missing).Takes s ms s') :
    s' = s ∧ ms.lookup name = none ∨
      s = (none : Option α) ∧ ∃ v a, ms.lookup name = some v ∧ r v.doc = .ok a ∧ s' = some a := by
  induction h with
  | nil s => exact .inl ⟨rfl, rfl⟩
  | @known s s₁ s₂ k v ms r' hput hr _ ih =>
    have hname : k = name := by
      by_contra hk
      cases (if_neg hk).symm.trans hput
    obtain rfl := Option.some.inj ((if_pos hname).symm.trans hput)
    obtain rfl := hname
    cases s with
    | some a => cases hr
    | none =>
      obtain ⟨a, ha, rfl⟩ := map_eq_ok hr
      refine .inr ⟨rfl, v, a, List.lookup_cons_self, ha, ?_⟩
      exact ih.elim And.left fun h => nomatch h.1
  | @unknown s s₂ k v ms hput _ ih =>
    have hname : k ≠ name := by
      intro hk
      cases (if_pos hk).symm.trans hput
    rw [List.lookup_cons, beq_false_of_ne hname.symm]
    exact ih

theorem yields_fieldOr (name : String) (r : Reader α) (default : α) :
    (fieldOr name r default).Yields fun ms a => MemberOr ms name r default a where
  unknown := put_one_eq_none name r (some default)
  holds := by
    intro ms s a htakes hfinish
    rcases htakes.of_one with ⟨rfl, hnone⟩ | ⟨-, v, b, hsome, hr, rfl⟩
    · obtain rfl := Except.ok.inj hfinish
      exact .missing hnone
    · obtain rfl := Except.ok.inj hfinish
      exact .found hsome hr

end Fields

/-- What holds of all that the members of an object can be read as holds of the record. -/
theorem Fields.Yields.record {name : String} {fs : Fields α} {P : List (String × Value) → α → Prop} (h : fs.Yields P)
    {ms : List (String × Value)} {a : α} (ha : record name fs (Value.object ms).doc = .ok a) : P ms a := by
  have hread : (do
    let s ← (memberDocs ms).foldlM fs.step fs.empty
    raise Close.closed.read
    fs.finish s) = .ok a := ha
  obtain ⟨s, hfold, hread⟩ := bind_eq_ok hread
  exact h.holds ms s a (takes_of_foldlM hfold) hread

end ContractMigration.Json
