import ContractMigration.Proofs.Cache.Usage

/-! What one action does to a cache in use. To the contents it either fills no slot, or it stores one new artifact: one
that was inserted, or the result of a computation that was not overtaken and whose sources are current. Computations
begin to run and handles are added by requests only, and no counter and no epoch ever falls. -/

namespace ContractMigration

theorem Artifact.isSame_iff {α : Type} [Staged α] {a b : Artifact α} :
    a.isSame b = true ↔ a.stage = b.stage ∧ a.id = b.id := by
  simp [isSame]

namespace Cache

variable {α : Type} [Staged α]

/-- Whether the result of a computation is to be stored: no epoch has passed since its start, and what it was made from
is current. -/
def accepts (c : Cache α) (m : Computation) (sources : List (Artifact α)) : Bool :=
  c.epoch m.key m.stage = m.epoch && c.isCurrent m.key sources

theorem complete_failure (c : Cache α) (now : ℕ) (m : Computation) (e : Failure) :
    c.complete now m (.error e) = (.error e, c.unregister m) := rfl

theorem complete_value (c : Cache α) (now : ℕ) (m : Computation) (v : α) (sources : List (Artifact α)) :
    c.complete now m (.ok (v, sources)) =
      (.ok ⟨c.nextArtifact, v⟩,
        if c.accepts m sources then ((c.unregister m).wrap v).2.store now m.key ⟨c.nextArtifact, v⟩
        else ((c.unregister m).wrap v).2) := rfl

theorem isCurrent_iff {c : Cache α} {k : Key} {sources : List (Artifact α)} :
    c.isCurrent k sources ↔ ∀ a ∈ sources, ∃ x, c.slot? k a.stage = some x ∧ x.artifact.isSame a := by
  simp [isCurrent, Option.any_eq_true]

omit [Staged α] in
/-- Everything that a request can do. -/
theorem request_cases (c : Cache α) (now : ℕ) (k : Key) (s : Stage) :
    (∃ x, c.visible? now k s = some x ∧ c.request now k s = (.hit x, { c.touch k with hits := c.hits + 1 })) ∨
    (∃ id, c.visible? now k s = none ∧ c.registered? k s = some id ∧
      c.request now k s = (.join id, { c.expire now k s with hits := c.hits + 1 })) ∨
    (c.visible? now k s = none ∧ c.registered? k s = none ∧
      c.request now k s = (.start ⟨c.nextComputation, k, s, c.epoch k s⟩,
        { c.expire now k s with
          handles := c.handles ++ [⟨k, s, c.nextComputation⟩]
          nextComputation := c.nextComputation + 1
          misses := c.misses + 1 })) := by
  have he := SameRest.expire c now k s
  have hr : (c.expire now k s).registered? k s = c.registered? k s := by rw [registered?, registered?, he.handles]
  rcases hv : c.visible? now k s with _ | x
  · rcases hj : c.registered? k s with _ | id
    · refine .inr (.inr ⟨rfl, rfl, ?_⟩)
      simp only [request, hv, hr, hj, he.epoch, he.nextComputation, he.handles, he.misses]
    · refine .inr (.inl ⟨id, rfl, rfl, ?_⟩)
      simp only [request, hv, hr, hj, he.hits]
  · exact .inl ⟨x, rfl, by simp only [request, hv]⟩

omit [Staged α] in
/-- What a request is served with can be seen. -/
theorem visible?_of_request {c : Cache α} {now : ℕ} {k : Key} {s : Stage} {a : Artifact α}
    (ha : (c.request now k s).1 = .hit a) : c.visible? now k s = some a := by
  rcases request_cases c now k s with ⟨x, hx, e⟩ | ⟨id, -, -, e⟩ | ⟨-, -, e⟩ <;> rw [e] at ha
  · rw [← Request.hit.inj ha, hx]
  · cases ha
  · cases ha

end Cache

/-- A computation was overtaken if it must not be stored any more. -/
def Computation.Overtaken {α : Type} (m : Computation) (c : Cache α) : Prop := m.epoch < c.epoch m.key m.stage

namespace Usage

open Cache

variable {α : Type} [Staged α]

/-! ### What is told -/

/-- At most one thing happens at a time. -/
theorem eq_of_mem_events {u : Usage α} {a : Action α} {e e' : Event α} (he : e ∈ u.events a) (he' : e' ∈ u.events a) :
    e = e' := by
  cases a with
  | finish m r =>
    rw [events] at he he'
    split_ifs at he he'
    · exact (List.mem_singleton.mp he).trans (List.mem_singleton.mp he').symm
    · cases he
  | _ => exact (List.mem_singleton.mp he).trans (List.mem_singleton.mp he').symm

theorem eq_finished_of_mem {u : Usage α} {m : Computation} {r : Yield α m.stage} {e : Event α}
    (he : e ∈ u.events (.finish m r)) :
    m ∈ u.running ∧ e = .finished m (u.cache.complete u.now m r.made).1 r.sources := by
  rw [events] at he
  split_ifs at he with hm
  · exact ⟨hm, List.mem_singleton.mp he⟩
  · cases he

/-- Only a computation that runs ends. -/
theorem finish_of_finished {u : Usage α} {a : Action α} {m : Computation} {r : Except Failure (Artifact α)}
    {sources : List (Artifact α)} (h : .finished m r sources ∈ u.events a) :
    m ∈ u.running ∧ ∃ y : Yield α m.stage, a = .finish m y ∧ r = (u.cache.complete u.now m y.made).1 ∧
      sources = y.sources := by
  cases a with
  | finish m' y =>
    obtain ⟨hm, he⟩ := eq_finished_of_mem h
    obtain ⟨rfl, hr, hs⟩ := Event.finished.inj he
    exact ⟨hm, y, rfl, hr, hs⟩
  | _ => cases List.mem_singleton.mp h

theorem request_of_requested {u : Usage α} {a : Action α} {k : Key} {s : Stage} {r : Request α}
    (h : .requested k s r ∈ u.events a) : a = .request k s ∧ r = (u.cache.request u.now k s).1 := by
  cases a with
  | request k' s' =>
    obtain ⟨rfl, rfl, hr⟩ := Event.requested.inj (List.mem_singleton.mp h)
    exact ⟨rfl, hr⟩
  | finish m r => cases (eq_finished_of_mem h).2
  | _ => cases List.mem_singleton.mp h

/-! ### Contents -/

/-- How an action comes to store an artifact for a repository. -/
inductive Cause (u : Usage α) (a : Action α) (k : Key) (x : Artifact α) : Prop
  | inserted (told : .inserted k x ∈ u.events a)
  | computed (m : Computation) (sources : List (Artifact α)) (told : .finished m (.ok x) sources ∈ u.events a)
      (runs : m ∈ u.running) (key : m.key = k) (staged : x.stage = m.stage) (accepted : u.cache.accepts m sources)

/-- What an action can do to the contents of a cache. -/
inductive Effect (u : Usage α) (a : Action α) : Prop
  | shrinks (h : Shrinks u.cache (u.step a).cache)
  | stores (k : Key) (x : Artifact α) (h : Stores u.cache (u.step a).cache k x) (cause : Cause u a k x)

theorem step_value {u : Usage α} {m : Computation} (hm : m ∈ u.running) (v : α) (sources : List (Artifact α))
    (staged : Staged.stage v = m.stage) :
    u.step (.finish m (.value v sources staged)) =
      ⟨if u.cache.accepts m sources then ((u.cache.unregister m).wrap v).2.store u.now m.key ⟨u.cache.nextArtifact, v⟩
        else ((u.cache.unregister m).wrap v).2, u.running.filter (· ≠ m), u.now⟩ := if_pos hm

theorem effect_finish {u : Usage α} (hk : u.cache.keys.Nodup) (m : Computation) (r : Yield α m.stage) :
    Effect u (.finish m r) := by
  by_cases hm : m ∈ u.running
  · cases r with
    | failure e => exact .shrinks (by rw [step_failure hm]; exact Shrinks.refl _)
    | value v sources staged =>
      have he := step_value hm v sources staged
      by_cases ha : u.cache.accepts m sources
      · rw [if_pos ha] at he
        refine .stores m.key ⟨u.cache.nextArtifact, v⟩ ?_ (.computed m sources ?_ hm rfl staged ha)
        · rw [he]
          exact Stores.store (c := ((u.cache.unregister m).wrap v).2) hk u.now m.key _
        · simp [events, hm, Yield.made, complete_value, Yield.sources]
      · rw [if_neg ha] at he
        exact .shrinks (by rw [he]; exact Shrinks.refl _)
  · exact .shrinks (by rw [step_finish_of_not_mem hm]; exact Shrinks.refl _)

theorem effect {u : Usage α} (hk : u.cache.keys.Nodup) (a : Action α) : Effect u a := by
  cases a with
  | request k s => exact .shrinks (Shrinks.request u.cache u.now k s)
  | finish m r => exact effect_finish hk m r
  | insert k v =>
    exact .stores k ⟨u.cache.nextArtifact, v⟩
      (Stores.store (c := ((u.cache.wrap v).2.bump k _).detach k _) hk u.now k _)
      (.inserted (List.mem_singleton.mpr rfl))
  | invalidate k s => exact .shrinks (Shrinks.invalidate u.cache k s)
  | clear => exact .shrinks (Shrinks.clear u.cache)
  | peek k s => exact .shrinks (Shrinks.expire u.cache u.now k s)
  | contains k s => exact .shrinks (Shrinks.expire u.cache u.now k s)
  | wait time => exact .shrinks (Shrinks.refl _)

/-- What is stored after an action was stored before it, or comes to be stored by it. -/
theorem slot?_step {u : Usage α} (hk : u.cache.keys.Nodup) {a : Action α} {k : Key} {s : Stage} {x : Stored α}
    (hx : (u.step a).cache.slot? k s = some x) :
    u.cache.slot? k s = some x ∨ x.artifact.stage = s ∧ Cause u a k x.artifact := by
  cases effect hk a with
  | shrinks hs => exact .inl (hs k s x hx)
  | stores j y hs cause =>
    rcases hs k s x hx with ⟨rfl, rfl, rfl⟩ | ⟨hx, -⟩
    · exact .inr ⟨rfl, cause⟩
    · exact .inl hx

theorem nodup_keys_step {u : Usage α} (hk : u.cache.keys.Nodup) (a : Action α) : (u.step a).cache.keys.Nodup := by
  cases a with
  | request k s => exact nodup_keys_request hk u.now k s
  | finish m r =>
    by_cases hm : m ∈ u.running
    · cases r with
      | failure e => rw [step_failure hm]; exact hk
      | value v sources staged =>
        rw [step_value hm]
        dsimp only
        split_ifs
        · exact nodup_keys_store (c := ((u.cache.unregister m).wrap v).2) hk u.now m.key _
        · exact hk
    · rw [step_finish_of_not_mem hm]; exact hk
  | insert k v => exact nodup_keys_store (c := ((u.cache.wrap v).2.bump k _).detach k _) hk u.now k _
  | invalidate k s => exact nodup_keys_dropSlots (c := (u.cache.bump k _).detach k _) hk k _
  | clear => exact List.nodup_nil
  | peek k s => exact nodup_keys_expire hk u.now k s
  | contains k s => exact nodup_keys_expire hk u.now k s
  | wait time => exact hk

/-- The end of a computation concerns the entries, its handle and the identities of artifacts only. -/
theorem step_finish_frame {u : Usage α} {m : Computation} (hm : m ∈ u.running) (r : Yield α m.stage) :
    ∃ es n, (u.step (.finish m r)).cache = { u.cache.unregister m with entries := es, nextArtifact := n } ∧
      u.cache.nextArtifact ≤ n := by
  cases r with
  | failure e =>
    rw [step_failure hm]
    exact ⟨_, _, rfl, le_rfl⟩
  | value v sources staged =>
    rw [step_value hm]
    dsimp only
    split_ifs
    · rw [SameRest.store _ u.now m.key ⟨u.cache.nextArtifact, v⟩]
      exact ⟨_, _, rfl, Nat.le_succ _⟩
    · exact ⟨_, _, rfl, Nat.le_succ _⟩

theorem handles_finish {u : Usage α} {m : Computation} (hm : m ∈ u.running) (r : Yield α m.stage) :
    (u.step (.finish m r)).cache.handles = u.cache.handles.filter fun h => h != ⟨m.key, m.stage, m.id⟩ := by
  obtain ⟨es, n, e, -⟩ := step_finish_frame hm r
  rw [e]
  rfl

/-! ### Computations -/

theorem start_of_requested {u : Usage α} {a : Action α} {k : Key} {s : Stage} {m : Computation}
    (h : .requested k s (.start m) ∈ u.events a) :
    m = ⟨u.cache.nextComputation, k, s, u.cache.epoch k s⟩ ∧ u.cache.registered? k s = none ∧
      m.id < (u.step a).cache.nextComputation := by
  obtain ⟨rfl, hm⟩ := request_of_requested h
  rw [step_request]
  rcases request_cases u.cache u.now k s with ⟨x, -, e⟩ | ⟨id, -, -, e⟩ | ⟨-, hn, e⟩ <;> rw [e] at hm ⊢
  · cases hm
  · cases hm
  · obtain rfl := Request.start.inj hm
    exact ⟨rfl, hn, Nat.lt_succ_self _⟩

theorem running_step (u : Usage α) (a : Action α) :
    (u.step a).running.Sublist u.running ∨
      ∃ m, .requested m.key m.stage (.start m) ∈ u.events a ∧ (u.step a).running = u.running ++ [m] := by
  cases a with
  | request k s =>
    rw [step_request, events]
    rcases request_cases u.cache u.now k s with ⟨x, -, e⟩ | ⟨id, -, -, e⟩ | ⟨-, hn, e⟩ <;> rw [e]
    · exact .inl (by simp [Request.started])
    · exact .inl (by simp [Request.started])
    · exact .inr ⟨_, List.mem_singleton.mpr rfl, rfl⟩
  | finish m r =>
    by_cases hm : m ∈ u.running
    · rw [step, if_pos hm]
      exact .inl List.filter_sublist
    · rw [step_finish_of_not_mem hm]
      exact .inl (List.Sublist.refl _)
  | _ => exact .inl (List.Sublist.refl _)

theorem mem_running_step {u : Usage α} {a : Action α} {m : Computation} (h : m ∈ (u.step a).running) :
    m ∈ u.running ∨ .requested m.key m.stage (.start m) ∈ u.events a := by
  rcases running_step u a with hs | ⟨m', told, e⟩
  · exact .inl (hs.subset h)
  · rw [e, List.mem_append, List.mem_singleton] at h
    exact h.imp_right fun h => by rw [h]; exact told

theorem handles_step (u : Usage α) (a : Action α) :
    (u.step a).cache.handles.Sublist u.cache.handles ∨
      ∃ m, .requested m.key m.stage (.start m) ∈ u.events a ∧
        (u.step a).cache.handles = u.cache.handles ++ [⟨m.key, m.stage, m.id⟩] := by
  cases a with
  | request k s =>
    rw [step_request, events]
    rcases request_cases u.cache u.now k s with ⟨y, -, e⟩ | ⟨id, -, -, e⟩ | ⟨-, hn, e⟩ <;> rw [e]
    · exact .inl (by rw [← (SameRest.touch u.cache k).handles])
    · exact .inl (by rw [← (SameRest.expire u.cache u.now k s).handles])
    · exact .inr ⟨⟨u.cache.nextComputation, k, s, u.cache.epoch k s⟩, List.mem_singleton.mpr rfl, rfl⟩
  | finish m r =>
    by_cases hm : m ∈ u.running
    · rw [handles_finish hm]
      exact .inl List.filter_sublist
    · rw [step_finish_of_not_mem hm]
      exact .inl (List.Sublist.refl _)
  | insert k v =>
    simp only [step, Cache.insert, (SameRest.store _ u.now k _).handles]
    exact .inl List.filter_sublist
  | invalidate k s =>
    simp only [step, invalidate, (SameRest.dropSlots _ k _).handles]
    exact .inl List.filter_sublist
  | clear => exact .inl (List.nil_sublist _)
  | peek k s => exact .inl ((SameRest.expire u.cache u.now k s).handles ▸ List.Sublist.refl _)
  | contains k s => exact .inl ((SameRest.expire u.cache u.now k s).handles ▸ List.Sublist.refl _)
  | wait time => exact .inl (List.Sublist.refl _)

theorem mem_handles_step {u : Usage α} {a : Action α} {x : Handle} (h : x ∈ (u.step a).cache.handles) :
    x ∈ u.cache.handles ∨ ∃ m, .requested x.key x.stage (.start m) ∈ u.events a ∧ m.id = x.id := by
  rcases handles_step u a with hs | ⟨m, told, e⟩
  · exact .inl (hs.subset h)
  · rw [e, List.mem_append, List.mem_singleton] at h
    exact h.imp_right fun h => ⟨m, by rw [h]; exact told, by rw [h]⟩

/-! ### Counters and epochs -/

theorem epoch_insert (c : Cache α) (now : ℕ) (j k : Key) (v : α) (t : Stage) :
    (c.insert now k v).2.epoch j t =
      if j = k ∧ t = Staged.stage v then c.epoch j t + 1 else c.epoch j t := by
  simp only [Cache.insert, (SameRest.store _ now k _).epoch]
  exact (epoch_bump c j k (List.nodup_singleton _) t).trans (by simp only [List.mem_singleton]; rfl)

/-- An action changes no setting and lets no counter and no epoch fall. -/
theorem advances_step (u : Usage α) (a : Action α) : Advances u.cache (u.step a).cache := by
  cases a with
  | request k s =>
    rw [step_request]
    rcases request_cases u.cache u.now k s with ⟨y, -, e⟩ | ⟨id, -, -, e⟩ | ⟨-, hn, e⟩ <;> rw [e]
    · have h := Advances.of_sameRest (SameRest.touch u.cache k)
      exact ⟨h.lifetime, h.capacity, h.computations, h.artifacts, h.epochs⟩
    · have h := Advances.of_sameRest (SameRest.expire u.cache u.now k s)
      exact ⟨h.lifetime, h.capacity, h.computations, h.artifacts, h.epochs⟩
    · have h := Advances.of_sameRest (SameRest.expire u.cache u.now k s)
      exact ⟨h.lifetime, h.capacity, Nat.le_succ _, h.artifacts, h.epochs⟩
  | finish m r =>
    by_cases hm : m ∈ u.running
    · obtain ⟨es, n, e, hn⟩ := step_finish_frame hm r
      rw [e]
      exact ⟨rfl, rfl, le_rfl, hn, fun _ _ => le_rfl⟩
    · rw [step_finish_of_not_mem hm]
      exact Advances.refl _
  | insert k v =>
    have hw : Advances u.cache (u.cache.wrap v).2 := ⟨rfl, rfl, le_rfl, Nat.le_succ _, fun _ _ => le_rfl⟩
    have hb := Advances.bump (u.cache.wrap v).2 k (List.nodup_singleton (u.cache.wrap v).1.stage)
    exact ((hw.trans hb).trans (Advances.detach _ k _)).trans (Advances.of_sameRest (SameRest.store _ u.now k _))
  | invalidate k s =>
    have hb := Advances.bump u.cache k (Stage.nodup_andDownstream s)
    exact (hb.trans (Advances.detach _ k _)).trans (Advances.of_sameRest (SameRest.dropSlots _ k _))
  | clear => exact Advances.clear u.cache
  | peek k s => exact Advances.of_sameRest (SameRest.expire u.cache u.now k s)
  | contains k s => exact Advances.of_sameRest (SameRest.expire u.cache u.now k s)
  | wait time => exact Advances.refl _

theorem advances_run (acts : List (Action α)) (u : Usage α) : Advances u.cache (run acts u).cache := by
  induction acts generalizing u with
  | nil => exact Advances.refl _
  | cons a rest ih => exact (advances_step u a).trans (ih _)

/-! ### Identities -/

/-- What an action makes has the next identity, and no later artifact has it. -/
theorem id_of_made {u : Usage α} {a : Action α} {e : Event α} (he : e ∈ u.events a) {x : Artifact α} (hx : x ∈ e.made) :
    x.id = u.cache.nextArtifact ∧ x.id < (u.step a).cache.nextArtifact := by
  cases a with
  | finish m r =>
    obtain ⟨hm, rfl⟩ := eq_finished_of_mem he
    cases r with
    | failure f => simp [Event.made, Yield.made, complete_failure] at hx
    | value v sources staged =>
      simp only [Event.made, Yield.made, complete_value, List.mem_singleton] at hx
      rw [hx, step_value hm]
      refine ⟨rfl, ?_⟩
      dsimp only
      split_ifs
      · rw [(SameRest.store _ u.now m.key _).nextArtifact]
        exact Nat.lt_succ_self _
      · exact Nat.lt_succ_self _
  | insert k v =>
    simp only [List.mem_singleton.mp he, Event.made, List.mem_singleton] at hx
    rw [hx]
    refine ⟨rfl, ?_⟩
    simp only [step, Cache.insert, (SameRest.store _ u.now k _).nextArtifact]
    exact Nat.lt_succ_self _
  | _ => simp [List.mem_singleton.mp he, Event.made] at hx

theorem Cause.id {u : Usage α} {a : Action α} {k : Key} {x : Artifact α} (h : Cause u a k x) :
    x.id = u.cache.nextArtifact ∧ x.id < (u.step a).cache.nextArtifact := by
  cases h with
  | inserted told => exact id_of_made told (List.mem_singleton.mpr rfl)
  | computed m sources told => exact id_of_made told (List.mem_singleton.mpr rfl)

/-- An artifact that has left its slot does not come back. -/
theorem slot?_of_step {u : Usage α} (hk : u.cache.keys.Nodup) {a : Action α} {k : Key} {s : Stage} {x : Stored α}
    (hx : (u.step a).cache.slot? k s = some x) (hid : x.artifact.id < u.cache.nextArtifact) :
    u.cache.slot? k s = some x := by
  rcases slot?_step hk hx with hold | ⟨-, cause⟩
  · exact hold
  · exact absurd cause.id.1 hid.ne

/-! ### What every reachable state keeps -/

/-- A cache as it can come to be by use. -/
structure Valid (u : Usage α) : Prop where
  keys : u.cache.keys.Nodup
  room : 0 < u.cache.capacity
  handles : u.cache.OneHandleEach
  ids : (u.running.map Computation.id).Nodup
  started : ∀ m ∈ u.running, m.id < u.cache.nextComputation
  epochs : ∀ m ∈ u.running, m.epoch ≤ u.cache.epoch m.key m.stage
  made : ∀ k s x, u.cache.slot? k s = some x → x.artifact.id < u.cache.nextArtifact
  staged : ∀ k s x, u.cache.slot? k s = some x → x.artifact.stage = s

theorem valid_start (lifetime capacity : ℕ) : Valid (start lifetime capacity : Usage α) where
  keys := List.nodup_nil
  room := Nat.lt_of_lt_of_le Nat.zero_lt_one (Nat.le_max_right capacity 1)
  handles := List.nodup_nil
  ids := List.nodup_nil
  started := by simp [start]
  epochs := by simp [start]
  made := fun _ _ _ h => nomatch h
  staged := fun _ _ _ h => nomatch h

theorem valid_step {u : Usage α} (h : Valid u) (a : Action α) : Valid (u.step a) := by
  have adv := advances_step u a
  refine ⟨nodup_keys_step h.keys a, adv.capacity ▸ h.room, ?handles, ?ids, ?started, ?epochs, ?made, ?staged⟩
  case handles =>
    rcases handles_step u a with hs | ⟨m, told, e⟩
    · exact (hs.map _).nodup h.handles
    · rw [OneHandleEach, e]
      exact h.handles.add (start_of_requested told).2.1 m.id
  case ids =>
    rcases running_step u a with hs | ⟨m, told, e⟩
    · exact (hs.map _).nodup h.ids
    · rw [e, List.map_append, List.nodup_append]
      refine ⟨h.ids, List.nodup_singleton _, fun i hi j hj => ?_⟩
      obtain ⟨m', hm', rfl⟩ := List.mem_map.mp hi
      rw [List.map_singleton, List.mem_singleton] at hj
      rw [hj, (start_of_requested told).1]
      exact (h.started m' hm').ne
  case started =>
    intro m hm
    rcases mem_running_step hm with hm | told
    · exact (h.started m hm).trans_le adv.computations
    · exact (start_of_requested told).2.2
  case epochs =>
    intro m hm
    rcases mem_running_step hm with hm | told
    · exact (h.epochs m hm).trans (adv.epochs _ _)
    · exact (congrArg Computation.epoch (start_of_requested told).1).le.trans (adv.epochs _ _)
  case made =>
    intro k s x hx
    rcases slot?_step h.keys hx with hx | ⟨-, cause⟩
    · exact (h.made k s x hx).trans_le adv.artifacts
    · exact cause.id.2
  case staged =>
    intro k s x hx
    rcases slot?_step h.keys hx with hx | ⟨hs, -⟩
    · exact h.staged k s x hx
    · exact hs

theorem valid_run (acts : List (Action α)) {u : Usage α} (h : Valid u) : Valid (run acts u) := by
  induction acts generalizing u with
  | nil => exact h
  | cons a rest ih => exact ih (valid_step h a)

end Usage

end ContractMigration
