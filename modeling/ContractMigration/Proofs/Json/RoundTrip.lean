import ContractMigration.Proofs.Json.Records

/-! Values that come back from their texts. A value is read back from both of its layouts if a reader takes its document,
its numbers have sixty-four bits, and its brackets do not lie too deep. -/

namespace ContractMigration.Json

variable {α : Type}

/-! ### How deep brackets lie -/

mutual

/-- How many brackets are open at once in the texts of a value. -/
def Value.depth : Value → Nat
  | .list items => itemsDepth items + 1
  | .object members => membersDepth members + 1
  | _ => 0

/-- How many brackets are open at once in the items. -/
def itemsDepth : List Value → Nat
  | [] => 0
  | v :: r => max v.depth (itemsDepth r)

/-- How many brackets are open at once in the members. -/
def membersDepth : List (String × Value) → Nat
  | [] => 0
  | (_, v) :: r => max v.depth (membersDepth r)

end

theorem itemsDepth_le_iff {items : List Value} {n : Nat} : itemsDepth items ≤ n ↔ ∀ v ∈ items, v.depth ≤ n := by
  induction items with
  | nil => simp [itemsDepth]
  | cons v items ih => rw [itemsDepth, Nat.max_le, ih, List.forall_mem_cons]

theorem membersDepth_le_iff {members : List (String × Value)} {n : Nat} :
    membersDepth members ≤ n ↔ ∀ m ∈ members, m.2.depth ≤ n := by
  induction members with
  | nil => simp [membersDepth]
  | cons m members ih => rw [membersDepth, Nat.max_le, ih, List.forall_mem_cons]

theorem depth_le_itemsDepth {items : List Value} {v : Value} (hv : v ∈ items) : v.depth ≤ itemsDepth items :=
  itemsDepth_le_iff.1 (Nat.le_refl _) v hv

theorem depth_le_membersDepth {members : List (String × Value)} {m : String × Value} (hm : m ∈ members) :
    m.2.depth ≤ membersDepth members := membersDepth_le_iff.1 (Nat.le_refl _) m hm

namespace Value

/-! ### Plain values -/

@[simp] theorem plain_string (n : Nat) (s : String) : (string s).Plain n := .string s

@[simp] theorem plain_bool (n : Nat) (b : Bool) : (bool b).Plain n := .bool b

@[simp] theorem plain_nat_iff {n k : Nat} : (nat k).Plain n ↔ k < Nat.pow 2 64 :=
  ⟨fun h => by cases h; assumption, .nat⟩

@[simp] theorem plain_list_iff {n : Nat} {items : List Value} : (list items).Plain (n + 1) ↔ ∀ v ∈ items, v.Plain n :=
  ⟨fun h => by cases h; assumption, .list⟩

@[simp] theorem plain_object_iff {n : Nat} {members : List (String × Value)} :
    (object members).Plain (n + 1) ↔ ∀ m ∈ members, m.2.Plain n :=
  ⟨fun h => by cases h; assumption, .object⟩

@[simp] theorem plain_strings (n : Nat) (ss : List String) : (Json.strings ss).Plain (n + 1) := by
  simp [Json.strings]

/-- How deep the brackets of a plain value lie is told by the value alone. -/
theorem Plain.of_depth_le {v : Value} {n m : Nat} (h : v.Plain n) (hm : v.depth ≤ m) : v.Plain m := by
  induction h generalizing m with
  | null => exact .null
  | bool b => exact .bool b
  | nat hk => exact .nat hk
  | string s => exact .string s
  | list _ ih =>
    rw [depth] at hm
    obtain ⟨k, rfl⟩ := Nat.exists_eq_add_of_le' (Nat.le_of_add_left_le hm)
    exact .list fun v hv => ih v hv (Nat.le_trans (depth_le_itemsDepth hv) (Nat.le_of_succ_le_succ hm))
  | object _ ih =>
    rw [depth] at hm
    obtain ⟨k, rfl⟩ := Nat.exists_eq_add_of_le' (Nat.le_of_add_left_le hm)
    exact .object fun v hv => ih v hv (Nat.le_trans (depth_le_membersDepth hv) (Nat.le_of_succ_le_succ hm))

theorem Plain.depth_le {v : Value} {n : Nat} (h : v.Plain n) : v.depth ≤ n := by
  induction h with
  | null | bool | nat | string => exact Nat.zero_le _
  | list _ ih => exact Nat.succ_le_succ (itemsDepth_le_iff.2 ih)
  | object _ ih => exact Nat.succ_le_succ (membersDepth_le_iff.2 ih)

theorem Plain.mono {v : Value} {n m : Nat} (h : v.Plain n) (hnm : n ≤ m) : v.Plain m :=
  h.of_depth_le (Nat.le_trans h.depth_le hnm)

theorem plain_list_depth {items : List Value} (h : ∀ v ∈ items, v.Plain v.depth) :
    (list items).Plain (list items).depth := by
  rw [depth]
  exact .list fun v hv => (h v hv).of_depth_le (depth_le_itemsDepth hv)

theorem plain_object_depth {members : List (String × Value)} (h : ∀ m ∈ members, m.2.Plain m.2.depth) :
    (object members).Plain (object members).depth := by
  rw [depth]
  exact .object fun m hm => (h m hm).of_depth_le (depth_le_membersDepth hm)

end Value

/-! ### Reading back -/

/-- What a reader takes from the document of a value, it takes from every spelling of the value. -/
theorem read_of_spells {r : Reader α} {v : Value} {a : α} {n : Nat} {t : List Char} (ht : Spells n v t)
    (hn : n ≤ maxDepth) (hr : r v.doc = .ok a) : read r (String.ofList t) = .ok a := by
  have hcuts := ht.cuts hn (q := []) (by simp [Stops])
  rw [List.append_nil] at hcuts
  simp only [read, Document.parse_of_cuts hcuts, hr]
  rfl

/-- Both layouts of the value are read as `a`. -/
def RoundTrips (r : Reader α) (v : Value) (a : α) : Prop := ∀ text ∈ [v.render, v.renderPretty], read r text = .ok a

theorem roundTrips_of_plain {r : Reader α} {v : Value} {a : α} {n : Nat} (h : v.Plain n) (hn : n ≤ maxDepth)
    (hr : r v.doc = .ok a) : RoundTrips r v a := by
  intro text htext
  obtain rfl | rfl : text = v.render ∨ text = v.renderPretty := by simpa using htext
  · exact read_of_spells h.spells_text hn hr
  · exact read_of_spells (h.spells_prettyText 0) hn hr

end ContractMigration.Json
