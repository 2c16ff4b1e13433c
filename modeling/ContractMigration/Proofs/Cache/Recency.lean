import ContractMigration.Proofs.Cache.Lifetimes
import Mathlib.Data.List.Dedup

/-! The order of use. A repository is used when an artifact is stored for it or a request for it is served from the cache;
nothing else moves an entry. So the entries of a cache stand in the order in which their repositories were last used, and
what makes room for something stored is the one repository that was not used for the longest time. -/

namespace ContractMigration

/-! ### Last occurrences -/

section Lists

variable {β : Type} [DecidableEq β]

/-- What occurs once more stands last. -/
theorem dedup_concat (xs : List β) (x : β) : (xs ++ [x]).dedup = xs.dedup.filter (· != x) ++ [x] := by
  induction xs with
  | nil => rfl
  | cons y ys ih =>
    rw [List.cons_append]
    by_cases hmem : y ∈ ys
    · rw [List.dedup_cons_of_mem (List.mem_append_left _ hmem), ih, List.dedup_cons_of_mem hmem]
    · rw [List.dedup_cons_of_notMem hmem]
      by_cases hy : y = x
      · rw [List.dedup_cons_of_mem (by simp [hy]), ih, List.filter_cons_of_neg (by simp [hy])]
      · rw [List.dedup_cons_of_notMem (by simp [hmem, hy]), ih, List.filter_cons_of_pos (by simp [hy]),
          List.cons_append]

/-- A part of a list without repetitions is picked out by its elements. -/
theorem eq_filter_of_sublist {xs ys : List β} (h : xs.Sublist ys) (hn : ys.Nodup) : xs = ys.filter (· ∈ xs) := by
  induction h with
  | slnil => rfl
  | cons y hsub ih =>
    obtain ⟨hy, hn⟩ := List.nodup_cons.mp hn
    rw [List.filter_cons_of_neg (by simpa using fun hmem => hy (hsub.subset hmem))]
    exact ih hn
  | cons_cons x hsub ih =>
    obtain ⟨hx, hn⟩ := List.nodup_cons.mp hn
    rw [List.filter_cons_of_pos (by simp)]
    congr 1
    refine (ih hn).trans (List.filter_congr fun z hz => ?_)
    have hne : z ≠ x := fun h => hx (h ▸ hz)
    simp [hne]

end Lists

/-! ### Entries -/

namespace Entry

variable {α : Type}

theorem isEmpty_eq_false_iff {e : Entry α} : e.isEmpty = false ↔ ∃ s, (e.get s).isSome := by
  simp [isEmpty, Stage.mem_all, Option.isSome_iff_ne_none]

theorem isEmpty_set (e : Entry α) (s : Stage) (x : Stored α) : Entry.isEmpty (e.set s (some x)) = false :=
  isEmpty_eq_false_iff.mpr ⟨s, by rw [Slots.get_set_self]; rfl⟩

end Entry

namespace Cache

variable {α : Type}

/-- No entry is kept for a repository of which nothing is stored. -/
def NoneEmpty (c : Cache α) : Prop := ∀ x ∈ c.entries, x.2.isEmpty = false

theorem mem_entries_of_entry {c : Cache α} {k : Key} {e : Entry α} (h : c.entry? k = some e) : (k, e) ∈ c.entries := by
  obtain ⟨front, back, hsplit, -⟩ := List.lookup_eq_some_iff.mp h
  simp [hsplit]

theorem isSome_entry?_iff {c : Cache α} {k : Key} : (c.entry? k).isSome ↔ k ∈ c.keys := by
  rw [Option.isSome_iff_ne_none, ne_eq, entry?, List.lookup_eq_none_iff, keys, List.mem_map]
  push Not
  exact exists_congr fun x => and_congr_right fun _ => by
    rw [ne_eq, Bool.not_eq_true, bne_eq_false_iff_eq, eq_comm]

theorem mem_keys_iff {c : Cache α} (h : c.NoneEmpty) {k : Key} : k ∈ c.keys ↔ ∃ s, (c.slot? k s).isSome := by
  rw [← isSome_entry?_iff]
  simp only [slot?]
  rcases he : c.entry? k with _ | e
  · simp
  · simpa using Entry.isEmpty_eq_false_iff.mp (h _ (mem_entries_of_entry he))

/-- Whether anything is stored for a repository. -/
def occupied (c : Cache α) (k : Key) : Bool := Stage.all.any fun s => (c.slot? k s).isSome

theorem occupied_iff {c : Cache α} {k : Key} : c.occupied k = true ↔ ∃ s, (c.slot? k s).isSome := by
  simp [occupied, Stage.mem_all]

/-- Slots were emptied at most, and entries that were emptied by it removed. -/
structure Thins (c c' : Cache α) : Prop where
  keys : c'.keys.Sublist c.keys
  noneEmpty : c.NoneEmpty → c'.NoneEmpty

namespace Thins

theorem refl (c : Cache α) : Thins c c := ⟨List.Sublist.refl _, id⟩

/-- It concerns the entries only. -/
theorem congr {c c' d d' : Cache α} (h : Thins c c') (he : d.entries = c.entries) (he' : d'.entries = c'.entries) :
    Thins d d' where
  keys := by rw [Cache.keys, Cache.keys, he, he']; exact h.keys
  noneEmpty hd := by rw [NoneEmpty, he']; exact h.noneEmpty (by rwa [NoneEmpty, ← he])

theorem dropSlots (c : Cache α) (k : Key) (stages : List Stage) : Thins c (c.dropSlots k stages) := by
  refine ⟨sublist_keys_dropSlots c k stages, fun h => ?_⟩
  unfold Cache.dropSlots
  split
  · exact h
  · intro x hx
    obtain ⟨y, hy, hyx⟩ := List.mem_filterMap.mp hx
    dsimp only at hyx
    split_ifs at hyx with hj he
    · rw [← Option.some.inj hyx]
      simpa using he
    · rw [← Option.some.inj hyx]
      exact h y hy

theorem expire (c : Cache α) (now : ℕ) (k : Key) (s : Stage) : Thins c (c.expire now k s) := by
  refine ⟨sublist_keys_expire c now k s, fun h => ?_⟩
  unfold Cache.expire
  split
  · split_ifs
    · exact h
    · exact (dropSlots c k [s]).noneEmpty h
  · exact h

end Thins

/-- The repositories in the order of use once `k` was used, without those that make room for it. -/
def raised (c : Cache α) (k : Key) : List Key :=
  let others := c.keys.filter (· != k)
  others.drop (others.length + 1 - c.capacity) ++ [k]

theorem keys_touch {c : Cache α} {k : Key} (hk : k ∈ c.keys) (hfits : c.keys.length ≤ c.capacity) :
    (c.touch k).keys = c.raised k := by
  obtain ⟨e, he⟩ := Option.isSome_iff_exists.mp (isSome_entry?_iff.mpr hk)
  have hothers : (c.keys.filter (· != k)).length < c.keys.length :=
    List.length_filter_lt_length_iff_exists.mpr ⟨k, hk, by simp⟩
  have hnone : (c.keys.filter (· != k)).length + 1 - c.capacity = 0 := by omega
  rw [raised, hnone, List.drop_zero]
  simp [touch, he, keys, List.filter_map, Function.comp_def]

theorem noneEmpty_touch {c : Cache α} (h : c.NoneEmpty) (k : Key) : (c.touch k).NoneEmpty := by
  unfold touch
  split
  · exact h
  · next e he =>
    intro x hx
    rcases List.mem_append.mp hx with hx | hx
    · exact h x (List.mem_filter.mp hx).1
    · rw [List.mem_singleton.mp hx]
      exact h (k, e) (mem_entries_of_entry he)

variable [Staged α]

theorem keys_store {c : Cache α} (hroom : 0 < c.capacity) (now : ℕ) (k : Key) (a : Artifact α) :
    (c.store now k a).keys = c.raised k := by
  have hkeys := keys_filled c now k a
  have hlength : (c.filled now k a).entries.length = (c.keys.filter (· != k)).length + 1 := by
    rw [← List.length_map Prod.fst]
    exact (congrArg List.length hkeys).trans (by simp)
  have hdrop : (c.store now k a).keys = (c.filled now k a).keys.drop ((c.filled now k a).entries.length - c.capacity) := by
    rw [store_eq, evict, keys, List.map_drop, capacity_filled]
    rfl
  rw [hdrop, hkeys, hlength, List.drop_append_of_le_length (by omega)]
  rfl

theorem noneEmpty_store {c : Cache α} (h : c.NoneEmpty) (now : ℕ) (k : Key) (a : Artifact α) :
    (c.store now k a).NoneEmpty := by
  intro x hx
  have hx : x ∈ (c.filled now k a).entries := List.mem_of_mem_drop hx
  rcases List.mem_append.mp hx with hx | hx
  · exact (Thins.dropSlots c k a.stage.downstream).noneEmpty h x (List.mem_filter.mp hx).1
  · rw [List.mem_singleton.mp hx]
    exact Entry.isEmpty_set _ _ _

end Cache

/-! ### Uses -/

/-- Storing is a use. -/
def Deed.used {α : Type} : Deed α → List Key
  | .stored k _ => [k]
  | _ => []

namespace Usage

open Cache

variable {α : Type}

/-- Being served is a use, unlike waiting for a computation or starting one. -/
def Event.used : Event α → List Key
  | .requested k _ (.hit _) => [k]
  | _ => []

variable [Staged α]

/-- The repositories that an action uses. -/
def used (u : Usage α) (a : Action α) : List Key := (u.deeds a).flatMap Deed.used ++ (u.events a).flatMap Event.used

/-- The repositories that a run uses, in order and with repetitions. -/
def uses : List (Action α) → Usage α → List Key
  | [], _ => []
  | a :: rest, u => u.used a ++ uses rest (u.step a)

omit [Staged α] in
theorem used_storing (u : Usage α) (k : Key) (a : Artifact α) : (u.storing k a).flatMap Deed.used = [k] := by
  simp [storing, Deed.used, List.flatMap_map]

/-- What an action does to the order of the entries: it uses nothing and puts none elsewhere, or it uses one repository,
which then stands behind all others. -/
inductive Reorders (u : Usage α) (a : Action α) : Prop
  | thins (h : Thins u.cache (u.step a).cache) (unused : u.used a = [])
  | raises (k : Key) (keys : (u.step a).cache.keys = u.cache.raised k)
      (noneEmpty : u.cache.NoneEmpty → (u.step a).cache.NoneEmpty) (used : u.used a = [k])

theorem reorders_request {u : Usage α} (hfits : u.cache.keys.length ≤ u.cache.capacity) (k : Key) (s : Stage) :
    Reorders u (.request k s) := by
  rcases request_cases u.cache u.now k s with ⟨x, hx, e⟩ | ⟨id, -, -, e⟩ | ⟨-, -, e⟩
  · obtain ⟨y, hy, -⟩ := slot?_of_visible? hx
    obtain ⟨f, hf, -⟩ := Option.bind_eq_some_iff.mp hy
    refine .raises k ?_ ?_ (by simp [used, deeds, events, e, Event.used])
    · rw [step_request, e]
      exact keys_touch (isSome_entry?_iff.mp (Option.isSome_of_eq_some hf)) hfits
    · rw [step_request, e]
      exact fun h => noneEmpty_touch h k
  · refine .thins ((Thins.expire u.cache u.now k s).congr rfl ?_) (by simp [used, deeds, events, e, Event.used])
    rw [step_request, e]
  · refine .thins ((Thins.expire u.cache u.now k s).congr rfl ?_) (by simp [used, deeds, events, e, Event.used])
    rw [step_request, e]

theorem reorders_finish {u : Usage α} (hroom : 0 < u.cache.capacity) (m : Computation) (r : Yield α m.stage) :
    Reorders u (.finish m r) := by
  by_cases hm : m ∈ u.running
  · cases r with
    | failure e =>
      refine .thins ((Thins.refl u.cache).congr rfl ?_) (by simp [used, deeds, events, hm, Event.used])
      rw [step_failure hm]
      rfl
    | value v sources staged =>
      by_cases ha : u.cache.accepts m sources
      · refine .raises m.key ?keys ?noneEmpty (by simp [used, deeds, events, hm, ha, used_storing, Event.used])
        case keys =>
          rw [step_value hm, if_pos ha]
          exact keys_store (c := ((u.cache.unregister m).wrap v).2) hroom u.now m.key _
        case noneEmpty =>
          rw [step_value hm, if_pos ha]
          exact fun h => noneEmpty_store (c := ((u.cache.unregister m).wrap v).2) h u.now m.key _
      · refine .thins ((Thins.refl u.cache).congr rfl ?_) (by simp [used, deeds, events, hm, ha, Event.used])
        rw [step_value hm, if_neg ha]
        rfl
  · refine .thins (by rw [step_finish_of_not_mem hm]; exact Thins.refl _) ?_
    cases r <;> simp [used, deeds, events, hm]

theorem reorders {u : Usage α} (hroom : 0 < u.cache.capacity) (hfits : u.cache.keys.length ≤ u.cache.capacity)
    (a : Action α) : Reorders u a := by
  cases a with
  | request k s => exact reorders_request hfits k s
  | finish m r => exact reorders_finish hroom m r
  | insert k v =>
    refine .raises k (keys_store (c := ((u.cache.wrap v).2.bump k _).detach k _) hroom u.now k _)
      (fun h => noneEmpty_store (c := ((u.cache.wrap v).2.bump k _).detach k _) h u.now k _) ?_
    simp [used, deeds, events, Event.used, used_storing]
  | invalidate k s =>
    exact .thins ((Thins.dropSlots ((u.cache.bump k s.andDownstream).detach k s.andDownstream) k _).congr rfl rfl) rfl
  | clear => exact .thins ⟨List.nil_sublist _, fun _ => List.forall_mem_nil _⟩ rfl
  | peek k s => exact .thins (Thins.expire u.cache u.now k s) rfl
  | contains k s => exact .thins (Thins.expire u.cache u.now k s) rfl
  | wait time => exact .thins (Thins.refl _) rfl

/-! ### Whole runs -/

/-- There is room for the entries, none of them is empty, and they stand in the order of last use. -/
structure Ordered (used : List Key) (u : Usage α) : Prop where
  keys : u.cache.keys.Nodup
  room : 0 < u.cache.capacity
  fits : u.cache.keys.length ≤ u.cache.capacity
  noneEmpty : u.cache.NoneEmpty
  order : u.cache.keys.Sublist used.dedup

omit [Staged α] in
theorem ordered_start (lifetime capacity : ℕ) : Ordered [] (start lifetime capacity : Usage α) where
  keys := List.nodup_nil
  room := Nat.lt_of_lt_of_le Nat.zero_lt_one (Nat.le_max_right capacity 1)
  fits := Nat.zero_le _
  noneEmpty := fun _ hx => nomatch hx
  order := List.Sublist.refl _

theorem ordered_step {past : List Key} {u : Usage α} (h : Ordered past u) (a : Action α) :
    Ordered (past ++ u.used a) (u.step a) := by
  have hcap := (advances_step u a).capacity
  have hkeys := nodup_keys_step h.keys a
  cases reorders h.room h.fits a with
  | thins ht unused =>
    refine ⟨hkeys, hcap ▸ h.room, hcap ▸ ht.keys.length_le.trans h.fits, ht.noneEmpty h.noneEmpty, ?_⟩
    rw [unused, List.append_nil]
    exact ht.keys.trans h.order
  | raises k keys noneEmpty used =>
    refine ⟨hkeys, hcap ▸ h.room, ?fits, noneEmpty h.noneEmpty, ?order⟩
    case fits =>
      have hroom := h.room
      rw [keys, hcap, raised, List.length_append, List.length_drop, List.length_singleton]
      omega
    case order =>
      rw [keys, used, dedup_concat, raised]
      exact ((List.drop_sublist _ _).trans (h.order.filter _)).append (List.Sublist.refl [k])

theorem ordered_run (acts : List (Action α)) {past : List Key} {u : Usage α} (h : Ordered past u) :
    Ordered (past ++ uses acts u) (run acts u) := by
  induction acts generalizing past u with
  | nil => simpa [uses] using h
  | cons a rest ih =>
    rw [run_cons, uses, ← List.append_assoc]
    exact ih (ordered_step h a)

omit [Staged α] in
/-- Nobody makes room for a repository that has an entry already or that finds room; otherwise the least recently used one
does. -/
theorem Ordered.raised_eq {past : List Key} {u : Usage α} (h : Ordered past u) (k : Key) :
    u.cache.raised k =
      if k ∈ u.cache.keys ∨ u.cache.keys.length < u.cache.capacity then u.cache.keys.filter (· != k) ++ [k]
      else u.cache.keys.tail ++ [k] := by
  have hfits := h.fits
  split_ifs with hk
  · have hnone : (u.cache.keys.filter (· != k)).length + 1 - u.cache.capacity = 0 := by
      have hle := List.length_filter_le (· != k) u.cache.keys
      rcases hk with hk | hlt
      · have hothers : (u.cache.keys.filter (· != k)).length < u.cache.keys.length :=
          List.length_filter_lt_length_iff_exists.mpr ⟨k, hk, by simp⟩
        omega
      · omega
    rw [raised, hnone, List.drop_zero]
  · push Not at hk
    have hothers : u.cache.keys.filter (· != k) = u.cache.keys :=
      List.filter_eq_self.mpr fun j hj => bne_iff_ne.mpr fun he => hk.1 (he ▸ hj)
    have hone : u.cache.keys.length + 1 - u.cache.capacity = 1 := by omega
    rw [raised, hothers, hone, List.drop_one]

omit [Staged α] in
theorem Ordered.keys_eq {past : List Key} {u : Usage α} (h : Ordered past u) :
    u.cache.keys = past.dedup.filter u.cache.occupied := by
  refine (eq_filter_of_sublist h.order (List.nodup_dedup past)).trans (List.filter_congr fun k _ => ?_)
  rw [Bool.eq_iff_iff, decide_eq_true_iff, mem_keys_iff h.noneEmpty, occupied_iff]

/-- The order of use. There are never more entries than there is room for, each has an occupied slot, and their keys are
those with an occupied slot in the order of last use. When something is stored, its repository comes to stand last; if
that one has no entry and the cache is full, the least recently used repository makes room, and nobody does otherwise. -/
theorem keys_by_last_use (lifetime capacity : ℕ) (acts : List (Action α)) :
    let u := run acts (start lifetime capacity)
    u.cache.entries.length ≤ max capacity 1 ∧
      (∀ x ∈ u.cache.entries, ∃ s, (x.2.get s).isSome) ∧
      u.cache.keys = (uses acts (start lifetime capacity)).dedup.filter u.cache.occupied ∧
      ∀ a k x, .stored k x ∈ u.deeds a →
        (u.step a).cache.keys =
          if k ∈ u.cache.keys ∨ u.cache.keys.length < max capacity 1 then u.cache.keys.filter (· != k) ++ [k]
          else u.cache.keys.tail ++ [k] := by
  intro u
  have h : Ordered (uses acts (start lifetime capacity)) u := ordered_run acts (ordered_start lifetime capacity)
  have hcap : u.cache.capacity = max capacity 1 := (advances_run acts (start lifetime capacity)).capacity
  refine ⟨?fits, fun x hx => Entry.isEmpty_eq_false_iff.mp (h.noneEmpty x hx), h.keys_eq, fun a k x hstored => ?stored⟩
  case fits =>
    rw [← hcap, ← List.length_map Prod.fst]
    exact h.fits
  case stored =>
    have hmem : k ∈ u.used a :=
      List.mem_append_left _ (List.mem_flatMap.mpr ⟨.stored k x, hstored, List.mem_singleton_self k⟩)
    rw [← hcap, ← h.raised_eq k]
    cases reorders h.room h.fits a with
    | thins ht unused => rw [unused] at hmem; cases hmem
    | raises j keys noneEmpty used =>
      rw [used, List.mem_singleton] at hmem
      rw [hmem]
      exact keys

/-- The repository `a` is asked for after `b` was stored, so `b` makes room for `c`, although it was looked at last. -/
theorem keys_by_last_use_served :
    let a : Key := ⟨"acme", "a"⟩
    let b : Key := ⟨"acme", "b"⟩
    let c : Key := ⟨"acme", "c"⟩
    let acts : List (Action Stage) := [.insert a .tree, .insert b .plan, .request a .tree, .peek b .plan]
    let u : Usage Stage := run acts (start 100 2)
    .stored c ⟨⟨u.cache.nextArtifact, .tree⟩, u.now⟩ ∈ u.deeds (.insert c .tree) ∧ u.cache.keys = [b, a] ∧
      (u.step (.insert c .tree)).cache.keys = [a, c] := by
  intro a b c acts u
  have hstored : .stored c ⟨⟨u.cache.nextArtifact, .tree⟩, u.now⟩ ∈ u.deeds (.insert c .tree) := List.mem_cons_self
  have hkeys : u.cache.keys = [b, a] := by decide +kernel
  have hnew : ¬(c ∈ [b, a] ∨ [b, a].length < max 2 1) := by decide
  have hnext := (keys_by_last_use 100 2 acts).2.2.2 (.insert c .tree) c _ hstored
  rw [hkeys, if_neg hnew] at hnext
  exact ⟨hstored, hkeys, hnext⟩

end Usage

end ContractMigration
