import ContractMigration.Cache.Basic
import Mathlib.Data.List.Nodup
import Mathlib.Data.Nat.Basic
import Mathlib.Order.Basic

/-! What a cache holds after each of its operations. Everything is said through `slot?`: an operation either empties
slots and fills none, or it stores one artifact, empties the slots behind it, and drops repositories that were not used
for a long time. For the latter each repository has one entry, which every operation keeps. -/

namespace ContractMigration

namespace Stage

theorem mem_all (s : Stage) : s ∈ all := by cases s <;> decide

theorem mem_downstream {s t : Stage} : t ∈ s.downstream ↔ s.rank < t.rank := by
  simp [downstream, mem_all]

theorem mem_andDownstream {s t : Stage} : t ∈ s.andDownstream ↔ s.rank ≤ t.rank := by
  simp [andDownstream, mem_all]

theorem nodup_andDownstream (s : Stage) : s.andDownstream.Nodup := by cases s <;> decide

theorem rank_injective {s t : Stage} (h : s.rank = t.rank) : s = t := by
  cases s <;> cases t <;> simp_all [rank]

end Stage

namespace Slots

variable {β : Type}

theorem get_set (x : Slots β) (s t : Stage) (b : β) : (x.set s b).get t = if t = s then b else x.get t := by
  split_ifs with h
  · rw [h, get_set_self]
  · exact get_set_ne x b h

theorem get_modify (x : Slots β) {stages : List Stage} (hn : stages.Nodup) (f : β → β) (t : Stage) :
    (x.modify stages f).get t = if t ∈ stages then f (x.get t) else x.get t := by
  induction stages generalizing x with
  | nil => simp [modify]
  | cons s rest ih =>
    rw [List.nodup_cons] at hn
    have hstep : x.modify (s :: rest) f = (x.set s (f (x.get s))).modify rest f := rfl
    rw [hstep, ih _ hn.2, get_set]
    by_cases ht : t = s
    · subst ht; simp [hn.1]
    · simp [ht]

/-- Emptying is indifferent to stages that are named twice. -/
theorem get_modify_const (x : Slots β) (stages : List Stage) (b : β) (t : Stage) :
    (x.modify stages fun _ => b).get t = if t ∈ stages then b else x.get t := by
  induction stages generalizing x with
  | nil => simp [modify]
  | cons s rest ih =>
    have hstep : x.modify (s :: rest) (fun _ => b) = (x.set s b).modify rest fun _ => b := rfl
    rw [hstep, ih, get_set]
    by_cases ht : t = s <;> by_cases hr : t ∈ rest <;> simp [ht, hr]

end Slots

/-! ### Entries by repository -/

section Lookup

variable {β : Type}

theorem lookup_cons_ite (i j : Key) (e : β) (es : List (Key × β)) :
    ((i, e) :: es).lookup j = if j = i then some e else es.lookup j := by
  by_cases h : j = i
  · rw [h, List.lookup_cons_self, if_pos rfl]
  · rw [List.lookup_cons, beq_eq_false_iff_ne.mpr h, if_neg h]

theorem lookup_filter_ne (es : List (Key × β)) (j k : Key) :
    (es.filter fun x => x.1 != k).lookup j = if j = k then none else es.lookup j := by
  induction es with
  | nil => simp
  | cons x rest ih =>
    obtain ⟨i, e⟩ := x
    by_cases hi : i = k
    · rw [List.filter_cons_of_neg (by simp [hi]), ih, lookup_cons_ite]
      split_ifs with hk hj
      · rfl
      · exact absurd (hj.trans hi) hk
      · rfl
    · rw [List.filter_cons_of_pos (by simp [hi]), lookup_cons_ite, lookup_cons_ite, ih]
      split_ifs with hj hk
      · exact absurd (hj.symm.trans hk) hi
      all_goals rfl

theorem lookup_moved (es : List (Key × β)) (j k : Key) (e : β) :
    (es.filter (fun x => x.1 != k) ++ [(k, e)]).lookup j = if j = k then some e else es.lookup j := by
  rw [List.lookup_append, lookup_filter_ne, lookup_cons_ite]
  by_cases hj : j = k <;> simp [hj]

theorem lookup_drop_some {es : List (Key × β)} (hn : (es.map Prod.fst).Nodup) {n : ℕ} {k : Key} {e : β}
    (h : (es.drop n).lookup k = some e) : es.lookup k = some e := by
  rw [← List.take_append_drop n es] at hn ⊢
  rw [List.map_append, List.nodup_append] at hn
  have hk : k ∈ (es.drop n).map Prod.fst := by
    obtain ⟨l, r, hl, -⟩ := List.lookup_eq_some_iff.mp h
    simp [hl]
  have hnone : (es.take n).lookup k = none := by
    rw [List.lookup_eq_none_iff]
    intro x hx
    simpa using fun he => hn.2.2 _ (List.mem_map_of_mem hx) _ hk he.symm
  rw [List.lookup_append, hnone, Option.none_or, h]

/-- The entry that was moved last stays. -/
theorem lookup_drop_moved (es : List (Key × β)) (k : Key) (e : β) {n : ℕ}
    (hn : n ≤ (es.filter fun x => x.1 != k).length) :
    ((es.filter (fun x => x.1 != k) ++ [(k, e)]).drop n).lookup k = some e := by
  have hnone : ((es.filter fun x => x.1 != k).drop n).lookup k = none := by
    rw [List.lookup_eq_none_iff]
    intro x hx
    have hne : x.1 ≠ k := by simpa using (List.mem_filter.mp (List.mem_of_mem_drop hx)).2
    exact bne_iff_ne.mpr hne.symm
  rw [List.drop_append_of_le_length hn, List.lookup_append, hnone, Option.none_or, List.lookup_cons_self]

end Lookup

namespace Entry

variable {α : Type}

theorem get_eq_none_of_isEmpty {e : Entry α} (h : e.isEmpty) (s : Stage) : e.get s = none := by
  simp only [isEmpty, List.all_eq_true] at h
  simpa using h s (Stage.mem_all s)

@[simp] theorem get_empty (s : Stage) : (empty : Entry α).get s = none := Slots.get_fill none s

@[simp] theorem get_drop (e : Entry α) (stages : List Stage) (t : Stage) :
    (e.drop stages).get t = if t ∈ stages then none else e.get t := Slots.get_modify_const e stages none t

end Entry

namespace Cache

variable {α : Type}

/-- The repositories with an entry, the least recently used one first. -/
def keys (c : Cache α) : List Key := c.entries.map Prod.fst

theorem replaceEntry_cons (i k : Key) (e f : Entry α) (es : List (Key × Entry α)) :
    replaceEntry ((i, f) :: es) k e =
      if i = k then if e.isEmpty then replaceEntry es k e else (i, e) :: replaceEntry es k e
      else (i, f) :: replaceEntry es k e := by
  rw [replaceEntry, List.filterMap_cons]
  by_cases hi : i = k <;> by_cases he : e.isEmpty <;> simp only [hi, he, ↓reduceIte, replaceEntry]
  all_goals rfl

theorem lookup_replaceEntry (es : List (Key × Entry α)) (j k : Key) (e : Entry α) :
    (replaceEntry es k e).lookup j =
      if j = k then (if e.isEmpty then none else (es.lookup k).map fun _ => e) else es.lookup j := by
  induction es with
  | nil => simp [replaceEntry]
  | cons x rest ih =>
    obtain ⟨i, f⟩ := x
    rw [replaceEntry_cons, lookup_cons_ite, lookup_cons_ite]
    by_cases hi : i = k
    · subst hi
      by_cases he : e.isEmpty
      · simp only [he, ↓reduceIte] at ih ⊢
        rw [ih]
        split_ifs <;> rfl
      · simp only [he, ↓reduceIte, lookup_cons_ite, Bool.false_eq_true] at ih ⊢
        rw [ih]
        split_ifs <;> rfl
    · rw [if_neg hi, if_neg (Ne.symm hi), lookup_cons_ite, ih]
      by_cases hj : j = i
      · rw [if_pos hj, if_neg (fun hk => hi (hj.symm.trans hk)), if_pos hj]
      · rw [if_neg hj, if_neg hj]

theorem slot?_eq_of_entries {c c' : Cache α} (h : c'.entries = c.entries) (k : Key) (s : Stage) :
    c'.slot? k s = c.slot? k s := by
  rw [slot?, slot?, entry?, entry?, h]

theorem slot?_of_visible? {c : Cache α} {now : ℕ} {k : Key} {s : Stage} {x : Artifact α}
    (h : c.visible? now k s = some x) : ∃ y, c.slot? k s = some y ∧ y.artifact = x := by
  obtain ⟨y, hy, rfl⟩ := Option.map_eq_some_iff.mp h
  exact ⟨y, (Option.filter_eq_some_iff.mp hy).1, rfl⟩

/-! ### Operations that fill no slot -/

theorem slot?_dropSlots (c : Cache α) (j k : Key) (stages : List Stage) (t : Stage) :
    (c.dropSlots k stages).slot? j t = if j = k ∧ t ∈ stages then none else c.slot? j t := by
  unfold dropSlots
  rcases he : c.entry? k with _ | e
  · by_cases hj : j = k
    · subst hj; simp [slot?, he]
    · simp [hj]
  · have hl : c.entries.lookup k = some e := he
    simp only [slot?, entry?, lookup_replaceEntry, hl, Option.map_some]
    by_cases hj : j = k
    · subst hj
      by_cases hd : (e.drop stages).isEmpty
      · have hg := Entry.get_eq_none_of_isEmpty hd t
        rw [Entry.get_drop] at hg
        simp_all
      · simp [hd, hl]
    · simp [hj]

theorem slot?_expire (c : Cache α) (now : ℕ) (j k : Key) (s t : Stage) :
    (c.expire now k s).slot? j t =
      if j = k ∧ t = s then (c.slot? k s).filter (c.isFresh now) else c.slot? j t := by
  unfold expire
  rcases hx : c.slot? k s with _ | x
  · split_ifs with h
    · rw [h.1, h.2, hx, Option.filter_none]
    · rfl
  · by_cases hf : c.isFresh now x
    · simp only [hf, ↓reduceIte, Option.filter_some]
      split_ifs with h
      · rw [h.1, h.2, hx]
      · rfl
    · simp only [hf, ↓reduceIte, slot?_dropSlots, List.mem_singleton, Option.filter_some, Bool.false_eq_true]

/-- What is found is still there. -/
theorem slot?_expire_of_visible? {c : Cache α} {now : ℕ} {k : Key} {s : Stage} {x : Artifact α}
    (h : c.visible? now k s = some x) : ∃ y, (c.expire now k s).slot? k s = some y ∧ y.artifact = x := by
  obtain ⟨y, hy, rfl⟩ := Option.map_eq_some_iff.mp h
  refine ⟨y, ?_, rfl⟩
  rw [slot?_expire, if_pos ⟨rfl, rfl⟩, hy]

@[simp] theorem slot?_touch (c : Cache α) (j k : Key) (t : Stage) : (c.touch k).slot? j t = c.slot? j t := by
  unfold touch
  rcases he : c.entry? k with _ | e
  · rfl
  · simp only [slot?, entry?, lookup_moved]
    by_cases hj : j = k
    · rw [hj, if_pos rfl, show c.entries.lookup k = some e from he]
    · rw [if_neg hj]

@[simp] theorem slot?_bump (c : Cache α) (k j : Key) (stages : List Stage) (t : Stage) :
    (c.bump k stages).slot? j t = c.slot? j t := rfl

@[simp] theorem slot?_detach (c : Cache α) (k j : Key) (stages : List Stage) (t : Stage) :
    (c.detach k stages).slot? j t = c.slot? j t := rfl

@[simp] theorem slot?_unregister (c : Cache α) (m : Computation) (j : Key) (t : Stage) :
    (c.unregister m).slot? j t = c.slot? j t := rfl

@[simp] theorem slot?_wrap (c : Cache α) (v : α) (j : Key) (t : Stage) :
    (c.wrap v).2.slot? j t = c.slot? j t := rfl

theorem slot?_evict {c : Cache α} (hn : c.keys.Nodup) {k : Key} {s : Stage} {x : Stored α}
    (h : c.evict.slot? k s = some x) : c.slot? k s = some x := by
  obtain ⟨e, he, hx⟩ := Option.bind_eq_some_iff.mp h
  exact Option.bind_eq_some_iff.mpr ⟨e, lookup_drop_some hn he, hx⟩

@[simp] theorem slot?_clear (c : Cache α) (k : Key) (s : Stage) : c.clear.slot? k s = none := rfl

/-- What is stored for a stage is still what was stored there before, if anything is. -/
def Shrinks (c c' : Cache α) : Prop := ∀ k s x, c'.slot? k s = some x → c.slot? k s = some x

namespace Shrinks

theorem refl (c : Cache α) : Shrinks c c := fun _ _ _ h => h

theorem of_eq {c c' : Cache α} (h : ∀ k s, c'.slot? k s = c.slot? k s) : Shrinks c c' :=
  fun k s _ hx => (h k s).symm.trans hx

theorem dropSlots (c : Cache α) (k : Key) (stages : List Stage) : Shrinks c (c.dropSlots k stages) := by
  intro j t x hx
  rw [slot?_dropSlots] at hx
  split_ifs at hx
  exact hx

theorem expire (c : Cache α) (now : ℕ) (k : Key) (s : Stage) : Shrinks c (c.expire now k s) := by
  intro j t x hx
  rw [slot?_expire] at hx
  split_ifs at hx with h
  · rw [h.1, h.2]
    exact (Option.filter_eq_some_iff.mp hx).1
  · exact hx

theorem request (c : Cache α) (now : ℕ) (k : Key) (s : Stage) : Shrinks c (c.request now k s).2 := by
  unfold Cache.request
  split
  · exact of_eq fun j t => slot?_touch c j k t
  · dsimp only
    split
    · exact expire c now k s
    · exact expire c now k s

theorem invalidate (c : Cache α) (k : Key) (s : Stage) : Shrinks c (c.invalidate k s).2 :=
  dropSlots ((c.bump k s.andDownstream).detach k s.andDownstream) k s.andDownstream

theorem clear (c : Cache α) : Shrinks c c.clear := fun k s x h => by simp at h

end Shrinks

/-! ### One entry for each repository -/

theorem keys_replaceEntry (es : List (Key × Entry α)) (k : Key) (e : Entry α) :
    ((replaceEntry es k e).map Prod.fst).Sublist (es.map Prod.fst) := by
  induction es with
  | nil => exact List.Sublist.refl _
  | cons x rest ih =>
    obtain ⟨i, f⟩ := x
    rw [replaceEntry_cons]
    split_ifs
    · exact ih.cons i
    all_goals exact ih.cons_cons i

theorem sublist_keys_dropSlots (c : Cache α) (k : Key) (stages : List Stage) :
    (c.dropSlots k stages).keys.Sublist c.keys := by
  unfold dropSlots
  split
  · exact List.Sublist.refl _
  · exact keys_replaceEntry _ _ _

theorem sublist_keys_expire (c : Cache α) (now : ℕ) (k : Key) (s : Stage) : (c.expire now k s).keys.Sublist c.keys := by
  unfold expire
  split
  · split_ifs
    · exact List.Sublist.refl _
    · exact sublist_keys_dropSlots c k [s]
  · exact List.Sublist.refl _

theorem nodup_keys_dropSlots {c : Cache α} (h : c.keys.Nodup) (k : Key) (stages : List Stage) :
    (c.dropSlots k stages).keys.Nodup := (sublist_keys_dropSlots c k stages).nodup h

theorem nodup_keys_expire {c : Cache α} (h : c.keys.Nodup) (now : ℕ) (k : Key) (s : Stage) :
    (c.expire now k s).keys.Nodup := (sublist_keys_expire c now k s).nodup h

theorem nodup_keys_moved {es : List (Key × Entry α)} (h : (es.map Prod.fst).Nodup) (k : Key) (e : Entry α) :
    ((es.filter (fun x => x.1 != k) ++ [(k, e)]).map Prod.fst).Nodup := by
  rw [List.map_append, List.nodup_append]
  refine ⟨(List.filter_sublist.map Prod.fst).nodup h, List.nodup_singleton k, ?_⟩
  intro i hi j hj
  obtain ⟨x, hx, rfl⟩ := List.mem_map.mp hi
  rw [List.mem_singleton.mp hj]
  simpa using (List.mem_filter.mp hx).2

theorem nodup_keys_touch {c : Cache α} (h : c.keys.Nodup) (k : Key) : (c.touch k).keys.Nodup := by
  unfold touch
  split
  · exact h
  · exact nodup_keys_moved h k _

theorem nodup_keys_evict {c : Cache α} (h : c.keys.Nodup) : c.evict.keys.Nodup :=
  ((List.drop_sublist _ _).map Prod.fst).nodup h

theorem nodup_keys_request {c : Cache α} (h : c.keys.Nodup) (now : ℕ) (k : Key) (s : Stage) :
    (c.request now k s).2.keys.Nodup := by
  unfold request
  split
  · exact nodup_keys_touch h k
  · dsimp only
    split <;> exact nodup_keys_expire h now k s

/-! ### Storing -/

variable [Staged α]

/-- An artifact was stored for a repository, and what is left otherwise was there before and is not behind it. -/
def Stores (c c' : Cache α) (k : Key) (a : Artifact α) : Prop :=
  ∀ j s x, c'.slot? j s = some x →
    (j = k ∧ s = a.stage ∧ x.artifact = a) ∨ (c.slot? j s = some x ∧ (j = k → s.rank < a.stage.rank))

/-- The cache in which an artifact is stored, before there is room again. -/
def filled (c : Cache α) (now : ℕ) (k : Key) (a : Artifact α) : Cache α :=
  let c := c.dropSlots k a.stage.downstream
  let entry := ((c.entry? k).getD Entry.empty).set a.stage (some ⟨a, now⟩)
  { c with entries := c.entries.filter (fun x => x.1 != k) ++ [(k, entry)] }

theorem store_eq (c : Cache α) (now : ℕ) (k : Key) (a : Artifact α) :
    c.store now k a = (c.filled now k a).evict := rfl

theorem nodup_keys_filled {c : Cache α} (h : c.keys.Nodup) (now : ℕ) (k : Key) (a : Artifact α) :
    (c.filled now k a).keys.Nodup :=
  nodup_keys_moved (nodup_keys_dropSlots h k a.stage.downstream) k _

theorem nodup_keys_store {c : Cache α} (h : c.keys.Nodup) (now : ℕ) (k : Key) (a : Artifact α) :
    (c.store now k a).keys.Nodup := nodup_keys_evict (nodup_keys_filled h now k a)

omit [Staged α] in
theorem get_entry?_getD (c : Cache α) (k : Key) (s : Stage) :
    ((c.entry? k).getD Entry.empty).get s = c.slot? k s := by
  rw [slot?]
  cases c.entry? k <;> simp

theorem slot?_filled (c : Cache α) (now : ℕ) (j k : Key) (a : Artifact α) (t : Stage) :
    (c.filled now k a).slot? j t =
      if j = k ∧ t = a.stage then some ⟨a, now⟩
      else if j = k ∧ a.stage.rank < t.rank then none else c.slot? j t := by
  have hd := slot?_dropSlots c j k a.stage.downstream t
  simp only [Stage.mem_downstream] at hd
  rw [slot?, entry?, filled, lookup_moved]
  by_cases hj : j = k
  · subst hj
    rw [if_pos rfl, Option.bind_some, Slots.get_set]
    by_cases ht : t = a.stage
    · simp [ht]
    · rw [if_neg ht, if_neg fun h => ht h.2]
      exact (get_entry?_getD _ j t).trans hd
  · simp only [hj, ↓reduceIte, false_and] at hd ⊢
    exact hd

/-- There is room for what is stored. -/
theorem slot?_store {c : Cache α} (hroom : 0 < c.capacity) (now : ℕ) (k : Key) (a : Artifact α) :
    (c.store now k a).slot? k a.stage = some ⟨a, now⟩ := by
  have hf := slot?_filled c now k k a a.stage
  rw [if_pos ⟨rfl, rfl⟩] at hf
  have hcap : (c.filled now k a).capacity = c.capacity := by
    simp only [filled, dropSlots]
    split <;> rfl
  rw [store_eq, ← hf, slot?, slot?, entry?, entry?]
  congr 1
  rw [evict, hcap, filled, lookup_moved, if_pos rfl]
  refine lookup_drop_moved _ k _ ?_
  simp only [List.length_append, List.length_singleton]
  omega

theorem Stores.store {c : Cache α} (h : c.keys.Nodup) (now : ℕ) (k : Key) (a : Artifact α) :
    Stores c (c.store now k a) k a := by
  intro j t x hx
  have hf := slot?_evict (nodup_keys_filled h now k a) hx
  rw [slot?_filled] at hf
  split_ifs at hf with h1 h2
  · exact .inl ⟨h1.1, h1.2, by rw [← Option.some.inj hf]⟩
  · refine .inr ⟨hf, fun hj => ?_⟩
    have hne : t.rank ≠ a.stage.rank := fun hr => h1 ⟨hj, Stage.rank_injective hr⟩
    have hle : ¬ a.stage.rank < t.rank := fun hr => h2 ⟨hj, hr⟩
    omega

end Cache

end ContractMigration
