import ContractMigration.Proofs.Json.Careful
import ContractMigration.Proofs.Json.Parsing

/-! Reading back what was written: if each member of an object is read back, a record is read back from the members
that are written for it. Members that may be missing are read back from nothing. -/

namespace ContractMigration.Json

variable {α β : Type}

/-! ### Scalars, lists and maps -/

theorem objectOf_eq (members : List (String × Option Value)) :
    objectOf members = .object (members.flatMap fun m => (m.2.map (m.1, ·)).toList) := by
  rw [objectOf, List.filterMap_eq_flatMap_toList]

theorem string_doc (s : String) : string (Value.string s).doc = .ok s := rfl

theorem boolean_doc (b : Bool) : boolean (Value.bool b).doc = .ok b := rfl

theorem count_doc (n : Nat) : count (Value.nat n).doc = .ok n := rfl

theorem size_doc (n : Nat) : size (Value.nat n).doc = .ok n := rfl

theorem nullable_string {r : Reader α} {s : String} {a : α} (h : r (Value.string s).doc = .ok a) :
    nullable r (Value.string s).doc = .ok (some a) := by
  show (r (Value.string s).doc).map some = _
  rw [h]
  rfl

theorem nullable_nat {r : Reader α} {n : Nat} {a : α} (h : r (Value.nat n).doc = .ok a) :
    nullable r (Value.nat n).doc = .ok (some a) := by
  show (r (Value.nat n).doc).map some = _
  rw [h]
  rfl

theorem listAs_map (wanted : String) {r : Reader α} {enc : α → Value} {l : List α}
    (h : ∀ a ∈ l, r (enc a).doc = .ok a) : listAs wanted r (Value.list (l.map enc)).doc = .ok l := by
  have hitems : (l.map (Value.doc ∘ enc)).mapM r = .ok l := by
    induction l with
    | nil => rfl
    | cons a l ih =>
      rw [List.map_cons, List.mapM_cons]
      simp only [Function.comp_apply, h a List.mem_cons_self, ih fun b hb => h b (List.mem_cons_of_mem a hb)]
      rfl
  simp only [listAs, Value.doc, itemDocs_eq, List.map_map, hitems]
  rfl

theorem list_map {r : Reader α} {enc : α → Value} {l : List α} (h : ∀ a ∈ l, r (enc a).doc = .ok a) :
    list r (Value.list (l.map enc)).doc = .ok l := listAs_map "a sequence" h

/-- A map is read back by inserting what is written for it, member by member. -/
theorem map_doc {γ : Type} {key : String → Except Error α} {value : Reader β} {insert : γ → α → β → γ} {name : α → String}
    {enc : β → Value} {l : List (α × β)} (hkey : ∀ x ∈ l, key (name x.1) = .ok x.1)
    (hvalue : ∀ x ∈ l, value (enc x.2).doc = .ok x.2) (empty : γ) :
    map key value empty insert (Value.object (l.map fun x => (name x.1, enc x.2))).doc =
      .ok (l.foldl (fun m x => insert m x.1 x.2) empty) := by
  have hclosed : ∀ {x : Except Error γ} {m : γ}, x = .ok m →
      (do let m ← x; raise Close.closed.read; Except.ok m) = Except.ok m := by
    rintro _ _ rfl
    rfl
  refine hclosed ?_
  induction l generalizing empty with
  | nil => rfl
  | cons x l ih =>
    have hrest := ih (fun y hy => hkey y (List.mem_cons_of_mem x hy)) (fun y hy => hvalue y (List.mem_cons_of_mem x hy))
      (insert empty x.1 x.2)
    have hname : Leaf.key ⟨.quote, .ok (.string (name x.1)), none⟩ = .ok (name x.1) := rfl
    simp only [List.map_cons, memberDocs, List.foldlM_cons, List.foldl_cons, hname, ← hrest]
    show (do
      let a ← key (name x.1)
      let b ← value (enc x.2).doc
      pure (insert empty a b)) >>= _ = _
    rw [hkey x List.mem_cons_self, hvalue x List.mem_cons_self]
    rfl

theorem strings_doc (ss : List String) : list string (strings ss).doc = .ok ss := list_map fun s _ => string_doc s

/-! ### Records -/

namespace Fields

/-- Two parts of a record know the members that one of them knows. -/
theorem put_seq_eq_none {f : Fields (α → β)} {x : Fields α} (hf : ∀ k s, k ∉ f.names → f.put k s = none)
    (hx : ∀ k s, k ∉ x.names → x.put k s = none) (k : String) (s : (f <*> x).Slots) (hk : k ∉ (f <*> x).names) :
    (f <*> x).put k s = none := by
  obtain ⟨hkf, hkx⟩ := not_or.1 fun h => hk (List.mem_append.2 h)
  obtain ⟨s, t⟩ := s
  rw [put_seq, hf k s hkf, hx k t hkx]
  rfl

theorem put_one_eq_none (name : String) (r : Reader α) (missing : Option α) (k : String) (s : Option α)
    (hk : k ∉ (one name r missing).names) : (one name r missing).put k s = none :=
  if_neg (by simpa [one] using hk)

/-- Members put into the slots one after the other. -/
inductive Puts (fs : Fields α) : fs.Slots → List (String × Value) → fs.Slots → Prop
  | nil (s : fs.Slots) : Puts fs s [] s
  | cons {s s₁ s₂ : fs.Slots} {k : String} {v : Value} {ms : List (String × Value)} {r : Doc → Except Error fs.Slots}
      (hput : fs.put k s = some r) (hr : r v.doc = .ok s₁) (h : Puts fs s₁ ms s₂) : Puts fs s ((k, v) :: ms) s₂

/-- The members `ms`, all of them known, are read as `a`. -/
structure Reads (fs : Fields α) (ms : List (String × Value)) (a : α) : Prop where
  unknown : ∀ k s, k ∉ fs.names → fs.put k s = none
  known : ∀ m ∈ ms, m.1 ∈ fs.names
  puts : ∃ s, fs.Puts fs.empty ms s ∧ fs.finish s = .ok a

theorem Puts.append {fs : Fields α} {s s₁ s₂ : fs.Slots} {ms ms' : List (String × Value)} (h : fs.Puts s ms s₁)
    (h' : fs.Puts s₁ ms' s₂) : fs.Puts s (ms ++ ms') s₂ := by
  induction h with
  | nil => exact h'
  | cons hput hr _ ih => exact .cons hput hr (ih h')

theorem Puts.seq_left {f : Fields (α → β)} {s s' : f.Slots} {ms : List (String × Value)} (h : f.Puts s ms s')
    (x : Fields α) (t : x.Slots) : (f <*> x).Puts (s, t) ms (s', t) := by
  induction h with
  | nil s => exact @Puts.nil _ (f <*> x) (s, t)
  | @cons s s₁ s₂ k v ms r hput hr _ ih =>
    have hput' : (f <*> x).put k (s, t) = some fun d => (r d).map (·, t) := by
      rw [put_seq, hput]
      rfl
    exact .cons hput' (by rw [hr]; rfl) ih

theorem Puts.seq_right {x : Fields α} {t t' : x.Slots} {ms : List (String × Value)} (h : x.Puts t ms t')
    (f : Fields (α → β)) (s : f.Slots) (hf : ∀ m ∈ ms, f.put m.1 s = none) : (f <*> x).Puts (s, t) ms (s, t') := by
  induction h with
  | nil t => exact @Puts.nil _ (f <*> x) (s, t)
  | @cons t t₁ t₂ k v ms r hput hr _ ih =>
    have hput' : (f <*> x).put k (s, t) = some fun d => (r d).map (s, ·) := by
      rw [put_seq, hf (k, v) List.mem_cons_self, hput]
      rfl
    exact .cons hput' (by rw [hr]; rfl) (ih fun m hm => hf m (List.mem_cons_of_mem _ hm))

theorem Puts.map {x : Fields α} {s s' : x.Slots} {ms : List (String × Value)} (h : x.Puts s ms s') (f : α → β) :
    (f <$> x).Puts s ms s' := by
  induction h with
  | nil s => exact @Puts.nil _ (f <$> x) s
  | @cons s s₁ s₂ k v ms r hput hr _ ih => exact @Puts.cons _ (f <$> x) s s₁ s₂ k v ms r hput hr ih

theorem Reads.map {x : Fields α} {ms : List (String × Value)} {a : α} (h : x.Reads ms a) (f : α → β) :
    (f <$> x).Reads ms (f a) where
  unknown := h.unknown
  known := h.known
  puts := by
    obtain ⟨s, hputs, hfinish⟩ := h.puts
    refine ⟨s, hputs.map f, ?_⟩
    show (x.finish s).map f = .ok (f a)
    rw [hfinish]
    rfl

theorem Reads.seq {f : Fields (α → β)} {x : Fields α} {ms ms' : List (String × Value)} {g : α → β} {a : α}
    (hf : f.Reads ms g) (hx : x.Reads ms' a) (hnames : ∀ k ∈ x.names, k ∉ f.names) :
    (f <*> x).Reads (ms ++ ms') (g a) where
  unknown := put_seq_eq_none hf.unknown hx.unknown
  known := by
    intro m hm
    obtain hm | hm := List.mem_append.1 hm
    · exact List.mem_append_left _ (hf.known m hm)
    · exact List.mem_append_right _ (hx.known m hm)
  puts := by
    obtain ⟨s, hs, hg⟩ := hf.puts
    obtain ⟨t, ht, ha⟩ := hx.puts
    refine ⟨(s, t), (hs.seq_left x x.empty).append (ht.seq_right f s fun m hm => ?_), ?_⟩
    · exact hf.unknown _ _ (hnames _ (hx.known m hm))
    · show (do
        let g ← f.finish s
        let a ← x.finish t
        .ok (g a)) = _
      rw [hg, ha]
      rfl

/-- A member that is there. -/
theorem reads_one {name : String} {r : Reader α} {v : Value} {a : α} (h : r v.doc = .ok a) (missing : Option α) :
    (one name r missing).Reads [(name, v)] a where
  unknown := put_one_eq_none name r missing
  known := by simp [one]
  puts := by
    refine ⟨some a, .cons (if_pos rfl) ?_ (.nil _), rfl⟩
    show (r v.doc).map some = _
    rw [h]
    rfl

/-- A member that may be missing and is not there. -/
theorem reads_missing (name : String) (r : Reader α) (a : α) : (fieldOr name r a).Reads [] a where
  unknown := put_one_eq_none name r (some a)
  known := by simp
  puts := ⟨none, .nil _, rfl⟩

/-- A member that is there if it has a value. -/
theorem reads_fieldOpt {name : String} {r : Reader α} {enc : α → Value} {o : Option α}
    (h : ∀ a ∈ o, nullable r (enc a).doc = .ok (some a)) :
    (fieldOpt name r).Reads (o.map fun a => (name, enc a)).toList o := by
  cases o with
  | none => exact reads_missing name (nullable r) none
  | some a => exact reads_one (h a rfl) (some none)

/-- How a record takes a member of an object. -/
def step (fs : Fields α) (s : fs.Slots) (m : Leaf × Doc) : Except Error fs.Slots := do
  match fs.put (← m.1.key) s with
  | some r => r m.2
  | none =>
    m.2.skip
    pure s

theorem Puts.foldlM {fs : Fields α} {s s' : fs.Slots} {ms : List (String × Value)} (h : fs.Puts s ms s') :
    (memberDocs ms).foldlM fs.step s = .ok s' := by
  induction h with
  | nil => rfl
  | @cons s s₁ s₂ k v ms r hput hr _ ih =>
    have hstep : fs.step s (⟨.quote, .ok (.string k), none⟩, v.doc) = .ok s₁ := by
      show (match fs.put k s with
        | some r => r v.doc
        | none => do
          v.doc.skip
          pure s) = .ok s₁
      rw [hput]
      exact hr
    rw [memberDocs, List.foldlM_cons, hstep]
    exact ih

end Fields

theorem record_object {name : String} {fs : Fields α} {ms : List (String × Value)} {a : α} (h : fs.Reads ms a) :
    record name fs (Value.object ms).doc = .ok a := by
  obtain ⟨s, hputs, hfinish⟩ := h.puts
  show (do
    let s ← (memberDocs ms).foldlM fs.step fs.empty
    raise Close.closed.read
    fs.finish s) = .ok a
  rw [hputs.foldlM]
  exact hfinish

/-! ### Any value -/

mutual

/-- The document of a value is read as the value. -/
theorem value_doc : ∀ v : Value, v.doc.value = .ok v
  | .null | .bool _ | .nat _ | .negative _ | .float _ | .string _ => rfl
  | .list items => by
    rw [Value.doc, Doc.value, itemValues_docs items]
    rfl
  | .object members => by
    rw [Value.doc, Doc.value, memberValues_docs members]
    rfl

theorem itemValues_docs : ∀ items : List Value, itemValues (itemDocs items) = .ok items
  | [] => rfl
  | v :: r => by
    rw [itemDocs, itemValues, value_doc v, itemValues_docs r]
    rfl

theorem memberValues_docs : ∀ members : List (String × Value), memberValues (memberDocs members) = .ok members
  | [] => rfl
  | (k, v) :: r => by
    rw [memberDocs, memberValues, value_doc v, memberValues_docs r]
    rfl

end

end ContractMigration.Json
