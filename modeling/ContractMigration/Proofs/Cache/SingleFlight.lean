import ContractMigration.Proofs.Cache.Origins

/-! One computation at a time. A request starts a computation only if nothing young enough is stored and no handle is there
to join; each handle is of a computation that runs, and nothing but the end of that very computation, or an operation on
its stage, removes it. Every call counts as a hit or as a miss, and every miss is a computation that was started. -/

namespace ContractMigration.Usage

open Cache

variable {α : Type}

/-- The calls in what has happened, each with what became of it. -/
def requests (h : List (Event α)) : List (Request α) :=
  h.filterMap fun
    | .requested _ _ r => some r
    | _ => none

/-- The computations that were started in what has happened. -/
def starts (h : List (Event α)) : List Computation := (requests h).flatMap Request.started

@[simp] theorem requests_append (h h' : List (Event α)) : requests (h ++ h') = requests h ++ requests h' :=
  List.filterMap_append

@[simp] theorem starts_append (h h' : List (Event α)) : starts (h ++ h') = starts h ++ starts h' := by
  rw [starts, requests_append, List.flatMap_append]
  rfl

/-- Every handle is of a computation that runs. -/
def Manned (u : Usage α) : Prop := ∀ x ∈ u.cache.handles, ∃ m ∈ u.running, x = ⟨m.key, m.stage, m.id⟩

/-- The counters agree with what has happened. -/
structure Counted (h : List (Event α)) (u : Usage α) : Prop where
  misses : u.cache.misses = u.cache.nextComputation
  started : u.cache.nextComputation = (starts h).length
  calls : u.cache.hits + u.cache.misses = (requests h).length

/-- The rule of a single flight, where `h` is what has happened so far. -/
structure SingleFlight [Staged α] (h : List (Event α)) (u : Usage α) : Prop where
  /-- A request starts a computation just when nothing young enough is stored and there is no handle. -/
  starts : ∀ k s, (∃ m, (u.cache.request u.now k s).1 = .start m) ↔
    (∀ x, u.cache.slot? k s = some x → u.cache.lifetime ≤ u.now - x.storedAt) ∧
      ∀ x ∈ u.cache.handles, ¬(x.key = k ∧ x.stage = s)
  /-- A request that finds a handle and nothing young enough starts nothing. It is told the number of a computation that
  runs for the stage, and this number is of no other computation that ends later. -/
  joins : ∀ x ∈ u.cache.handles,
    (∀ y, u.cache.slot? x.key x.stage = some y → u.cache.lifetime ≤ u.now - y.storedAt) →
      (u.cache.request u.now x.key x.stage).1 = .join x.id ∧
        (u.step (.request x.key x.stage)).running = u.running ∧
        ∃ m ∈ u.running, x = ⟨m.key, m.stage, m.id⟩ ∧
          ∀ acts m' r sources, .finished m' r sources ∈ story acts u → m'.id = x.id →
            m' = m ∧ ∀ a, r = .ok a → a.stage = x.stage
  /-- The end of a computation whose handle is gone leaves the handles as they are. -/
  detached : ∀ m, ⟨m.key, m.stage, m.id⟩ ∉ u.cache.handles → ∀ r,
    (u.step (.finish m r)).cache.handles = u.cache.handles
  /-- The end of a computation removes no handle of another one. -/
  others : ∀ m r, ∀ x ∈ u.cache.handles, x.id ≠ m.id → x ∈ (u.step (.finish m r)).cache.handles
  distinct : (u.cache.handles.map Handle.id).Nodup
  below : ∀ x ∈ u.cache.handles, x.id < u.cache.nextComputation
  misses : u.cache.misses = u.cache.nextComputation ∧ u.cache.nextComputation = (Usage.starts h).length
  calls : u.cache.hits + u.cache.misses = (requests h).length

variable [Staged α]

/-! ### Handles -/

theorem manned_step {u : Usage α} (hu : Manned u) (a : Action α) : Manned (u.step a) := by
  intro x hx
  rcases mem_handles_step hx with hold | ⟨m, told, hid⟩
  · obtain ⟨m, hm, rfl⟩ := hu x hold
    cases a with
    | finish m' r =>
      by_cases hm' : m' ∈ u.running
      · rw [handles_finish hm', List.mem_filter, bne_iff_ne] at hx
        refine ⟨m, ?_, rfl⟩
        rw [step, if_pos hm']
        refine List.mem_filter.mpr ⟨hm, decide_eq_true fun he => hx.2 ?_⟩
        rw [he]
      · rw [step_finish_of_not_mem hm']
        exact ⟨m, hm, rfl⟩
    | request k s => exact ⟨m, List.mem_append_left _ hm, rfl⟩
    | _ => exact ⟨m, hm, rfl⟩
  · -- the handle is of the computation that the request has started
    obtain ⟨rfl, hstart⟩ := request_of_requested told
    have hm := (start_of_requested told).1
    have hkey : m.key = x.key := congrArg Computation.key hm
    have hstage : m.stage = x.stage := congrArg Computation.stage hm
    refine ⟨m, ?_, by rw [hkey, hstage, hid]⟩
    rw [step_request, ← hstart]
    exact List.mem_append_right _ (List.mem_singleton.mpr rfl)

theorem manned_run (lifetime capacity : ℕ) (acts : List (Action α)) : Manned (run acts (start lifetime capacity)) :=
  run_keeps (P := fun _ u => Manned u) (fun _ _ a hu => manned_step hu a) acts (h := []) nofun

/-- Handles are told apart by their numbers. -/
theorem handle_eq {u : Usage α} (hv : Valid u) (hu : Manned u) {x y : Handle} (hx : x ∈ u.cache.handles)
    (hy : y ∈ u.cache.handles) (hid : x.id = y.id) : x = y := by
  obtain ⟨m, hm, rfl⟩ := hu x hx
  obtain ⟨m', hm', rfl⟩ := hu y hy
  rw [List.inj_on_of_nodup_map hv.ids hm hm' hid]

theorem nodup_handle_ids {u : Usage α} (hv : Valid u) (hu : Manned u) : (u.cache.handles.map Handle.id).Nodup :=
  hv.handles.of_map.map_on fun _ hx _ hy => handle_eq hv hu hx hy

theorem handles_finish_of_not_mem {u : Usage α} {m : Computation} (hm : ⟨m.key, m.stage, m.id⟩ ∉ u.cache.handles)
    (r : Yield α m.stage) : (u.step (.finish m r)).cache.handles = u.cache.handles := by
  by_cases hrun : m ∈ u.running
  · rw [handles_finish hrun, List.filter_eq_self]
    exact fun x hx => bne_iff_ne.mpr fun he => hm (he ▸ hx)
  · rw [step_finish_of_not_mem hrun]

theorem mem_handles_finish {u : Usage α} {m : Computation} (r : Yield α m.stage) {x : Handle}
    (hx : x ∈ u.cache.handles) (hid : x.id ≠ m.id) : x ∈ (u.step (.finish m r)).cache.handles := by
  by_cases hrun : m ∈ u.running
  · rw [handles_finish hrun, List.mem_filter]
    exact ⟨hx, bne_iff_ne.mpr fun he => hid (congrArg Handle.id he)⟩
  · rwa [step_finish_of_not_mem hrun]

/-! ### Counters -/

omit [Staged α] in
theorem counted_start (lifetime capacity : ℕ) : Counted [] (start lifetime capacity : Usage α) := ⟨rfl, rfl, rfl⟩

/-- Only requests count. -/
theorem counters_step {u : Usage α} {a : Action α} (ha : ∀ k s, a ≠ .request k s) :
    (u.step a).cache.hits = u.cache.hits ∧ (u.step a).cache.misses = u.cache.misses ∧
      (u.step a).cache.nextComputation = u.cache.nextComputation ∧ requests (u.events a) = [] := by
  have hrest : ∀ {c c' : Cache α}, SameRest c c' →
      c'.hits = c.hits ∧ c'.misses = c.misses ∧ c'.nextComputation = c.nextComputation :=
    fun h => ⟨h.hits, h.misses, h.nextComputation⟩
  cases a with
  | request k s => exact absurd rfl (ha k s)
  | finish m r =>
    by_cases hm : m ∈ u.running
    · obtain ⟨es, n, e, -⟩ := step_finish_frame hm r
      rw [e, events, if_pos hm]
      exact ⟨rfl, rfl, rfl, rfl⟩
    · rw [step_finish_of_not_mem hm, events, if_neg hm]
      exact ⟨rfl, rfl, rfl, rfl⟩
  | insert k v =>
    obtain ⟨hh, hm, hn⟩ := hrest (SameRest.store (((u.cache.wrap v).2.bump k [Staged.stage v]).detach k [Staged.stage v])
      u.now k (u.cache.wrap v).1)
    exact ⟨hh, hm, hn, rfl⟩
  | invalidate k s =>
    obtain ⟨hh, hm, hn⟩ := hrest (SameRest.dropSlots ((u.cache.bump k s.andDownstream).detach k s.andDownstream) k
      s.andDownstream)
    exact ⟨hh, hm, hn, rfl⟩
  | clear =>
    obtain ⟨epochs, e⟩ := clear_frame u.cache
    rw [step, e]
    exact ⟨rfl, rfl, rfl, rfl⟩
  | peek k s =>
    obtain ⟨hh, hm, hn⟩ := hrest (SameRest.expire u.cache u.now k s)
    exact ⟨hh, hm, hn, rfl⟩
  | contains k s =>
    obtain ⟨hh, hm, hn⟩ := hrest (SameRest.expire u.cache u.now k s)
    exact ⟨hh, hm, hn, rfl⟩
  | wait time => exact ⟨rfl, rfl, rfl, rfl⟩

theorem counted_request {h : List (Event α)} {u : Usage α} (hu : Counted h u) (k : Key) (s : Stage) :
    Counted (h ++ u.events (.request k s)) (u.step (.request k s)) := by
  have hone : requests (u.events (.request k s)) = [(u.cache.request u.now k s).1] := rfl
  have hstarts : Usage.starts (u.events (.request k s)) = (u.cache.request u.now k s).1.started := by simp [starts, hone]
  have htouch := SameRest.touch u.cache k
  have hexpire := SameRest.expire u.cache u.now k s
  obtain ⟨hmisses, hstarted, hcalls⟩ := hu
  rcases request_cases u.cache u.now k s with ⟨x, -, e⟩ | ⟨id, -, -, e⟩ | ⟨-, -, e⟩ <;>
    refine ⟨?_, ?_, ?_⟩ <;>
    simp only [step_request, starts_append, requests_append, hstarts, hone, e, Request.started, List.length_append,
      List.length_cons, List.length_nil, htouch.misses, htouch.nextComputation, hexpire.misses, hexpire.hits,
      hexpire.nextComputation] <;>
    omega

theorem counted_step {h : List (Event α)} {u : Usage α} (hu : Counted h u) (a : Action α) :
    Counted (h ++ u.events a) (u.step a) := by
  by_cases ha : ∃ k s, a = .request k s
  · obtain ⟨k, s, rfl⟩ := ha
    exact counted_request hu k s
  · obtain ⟨hh, hm, hn, hnone⟩ := counters_step (u := u) fun k s he => ha ⟨k, s, he⟩
    have hstarts : Usage.starts (u.events a) = [] := by rw [starts, hnone]; rfl
    refine ⟨?_, ?_, ?_⟩
    · rw [hm, hn, hu.misses]
    · rw [hn, starts_append, hstarts, List.append_nil]
      exact hu.started
    · rw [hh, hm, requests_append, hnone, List.append_nil]
      exact hu.calls

/-! ### Requests -/

omit [Staged α] in
theorem visible?_eq_none_iff {c : Cache α} {now : ℕ} {k : Key} {s : Stage} :
    c.visible? now k s = none ↔ ∀ x, c.slot? k s = some x → c.lifetime ≤ now - x.storedAt := by
  simp [visible?, isFresh]

omit [Staged α] in
theorem request_start_iff (c : Cache α) (now : ℕ) (k : Key) (s : Stage) :
    (∃ m, (c.request now k s).1 = .start m) ↔ c.visible? now k s = none ∧ c.registered? k s = none := by
  rcases request_cases c now k s with ⟨x, hx, e⟩ | ⟨id, hx, hid, e⟩ | ⟨hx, hid, e⟩ <;> rw [e]
  · simp [hx]
  · simp [hid]
  · simp [hx, hid]

omit [Staged α] in
theorem registered?_of_mem {c : Cache α} (h : c.OneHandleEach) {x : Handle} (hx : x ∈ c.handles) :
    c.registered? x.key x.stage = some x.id := by
  rcases hr : c.registered? x.key x.stage with _ | id
  · exact absurd ⟨rfl, rfl⟩ (registered?_eq_none.mp hr x hx)
  · exact congrArg (fun y : Handle => some y.id) (h.eq (mem_of_registered? hr) hx rfl rfl)

/-- A computation that runs is the only one that ever ends with its number. -/
theorem eq_of_finished {h : List (Event α)} {u : Usage α} (hn : Numbered h u) {m : Computation} (hm : m ∈ u.running)
    {acts : List (Action α)} {m' : Computation} {r : Except Failure (Artifact α)} {sources : List (Artifact α)}
    (hf : .finished m' r sources ∈ story acts u) (hid : m'.id = m.id) : m' = m := by
  have hrun : Numbered (h ++ story acts u) (run acts u) :=
    run_keeps (P := Numbered) (fun _ _ a hu => numbered_step hu a) acts hn
  have hstart := hrun.finished m' r sources (List.mem_append_right _ hf)
  exact hrun.once _ _ m' _ _ m hstart (List.mem_append_left _ (hn.running m hm)) hid

theorem stage_of_finished_in {acts : List (Action α)} {u : Usage α} {m : Computation} {x : Artifact α}
    {sources : List (Artifact α)} (h : .finished m (.ok x) sources ∈ story acts u) : x.stage = m.stage := by
  induction acts generalizing u with
  | nil => cases h
  | cons a rest ih =>
    rw [story_cons] at h
    exact (List.mem_append.mp h).elim (fun h => (stage_of_finished h).1) ih

/-- Whatever is done with a cache, the rule of a single flight holds. -/
theorem singleFlight_run (lifetime capacity : ℕ) (acts : List (Action α)) :
    SingleFlight (story acts (start lifetime capacity)) (run acts (start lifetime capacity)) := by
  set u := run acts (start lifetime capacity)
  have hv : Valid u := valid_run acts (valid_start lifetime capacity)
  have hn : Numbered (story acts (start lifetime capacity)) u := numbered_run lifetime capacity acts
  have hu : Manned u := manned_run lifetime capacity acts
  have hc : Counted (story acts (start lifetime capacity)) u :=
    run_keeps (P := Counted) (fun _ _ a hu => counted_step hu a) acts (counted_start lifetime capacity)
  refine ⟨fun k s => ?starts, fun x hx hold => ?joins, fun m hm r => handles_finish_of_not_mem hm r,
    fun m r x hx hid => mem_handles_finish r hx hid, nodup_handle_ids hv hu, fun x hx => ?below,
    ⟨hc.misses, hc.started⟩, hc.calls⟩
  case starts => rw [request_start_iff, visible?_eq_none_iff, registered?_eq_none]
  case joins =>
    have hregistered := registered?_of_mem hv.handles hx
    have hnone := visible?_eq_none_iff.mpr hold
    obtain ⟨m, hm, rfl⟩ := hu x hx
    rcases request_cases u.cache u.now m.key m.stage with ⟨y, hy, -⟩ | ⟨id, -, hid, e⟩ | ⟨-, hno, -⟩
    · cases hnone.symm.trans hy
    · obtain rfl := Option.some.inj (hid.symm.trans hregistered)
      refine ⟨by rw [e], by simp [step_request, e, Request.started], m, hm, rfl, fun acts' m' r sources hf hid' => ?_⟩
      obtain rfl := eq_of_finished hn hm hf hid'
      refine ⟨rfl, ?_⟩
      rintro a rfl
      exact stage_of_finished_in hf
    · cases hno.symm.trans hregistered
  case below =>
    obtain ⟨m, hm, rfl⟩ := hu x hx
    exact hv.started m hm

end ContractMigration.Usage
