import ContractMigration.Proofs.Cache.Failing
import ContractMigration.Proofs.Session.Turns

/-! What a failure means for those who wait and for those who come later. The failure of a computation goes to everybody
who has its ticket, whenever they look, and to the computations that wait for it. The cache keeps nothing of it: whoever
asks later is served an artifact, waits for another computation, or starts one. -/

namespace ContractMigration.Session

open Usage

variable {I : Interface} {α : Type} [Staged α] (work : Session I α → Key → (st : Stage) → Routine I α (Yield α st))

/-- What holds in a session at any time after a computation `m` has failed with `e`. -/
structure Failed (m : Computation) (e : Failure) (s : Session I α) : Prop where
  /-- Everybody with its ticket is told this failure. -/
  told : ∀ name st started, (s.inform ⟨name, st, started, .waiting m.id⟩).answer? = some (.error e)
  /-- A computation that waits for it goes on with this failure. -/
  passedOn : ∀ f ∈ s.flights, ∀ next, f.position = .joined m.id next → ∀ answer,
    s.moved (callWith work) (.go f.computation.id answer) =
      ([.read f.computation.id (.received (.error e))], s.place f.computation.id (.active (next (.error e))))
  /-- Nobody gets its ticket any more. -/
  notJoined : ∀ k st, (callWith work s k st).1 ≠ .waiting m.id
  /-- What the cache has an answer for is answered with an artifact. -/
  served : ∀ k st r, (callWith work s k st).1 = .settled r → ∃ x : Artifact α, r = .ok x ∧ x.stage = st
  afresh : StartsAfresh m s.usage
  /-- Whoever asks for its stage and finds neither something young enough nor a newer handle brings a new computation along,
  which runs and is waited for. -/
  anew : (∀ x, s.cache.slot? m.key m.stage = some x → s.cache.lifetime ≤ s.now - x.storedAt) →
    (∀ x ∈ s.cache.handles, x.key = m.key → x.stage = m.stage → ¬m.id < x.id) →
    ∃ m', m.id < m'.id ∧ m'.key = m.key ∧ m'.stage = m.stage ∧
      (callWith work s m.key m.stage).1 = .waiting m'.id ∧
      (callWith work s m.key m.stage).2.flights =
        s.flights ++ [⟨m', .active ((work s m.key m.stage).bind fun y => .done y.made)⟩]

variable {H : List (Event α)} {s : Session I α} {m : Computation} {e : Failure}

/-- What the cache answers at once is an artifact of the stage that was asked for. -/
theorem exists_of_enter_settled (hs : Valid s.usage) {k : Key} {st : Stage} {r : Routine I α (Made α)}
    {answer : Except Failure (Artifact α)} (hr : (s.enter k st r).1 = .settled answer) :
    ∃ x : Artifact α, answer = .ok x ∧ x.stage = st := by
  rcases enter_cases s k st r with ⟨x, hx, e⟩ | ⟨id, -, -, e⟩ | ⟨m, -, -, -, -, e⟩ <;> rw [e] at hr
  · obtain ⟨y, hy, rfl⟩ := Cache.slot?_of_visible? hx
    have hstage := hs.staged k st y hy
    exact ⟨y.artifact, (Ticket.settled.inj hr).symm.trans (Artifact.ofStage_eq_ok hstage), hstage⟩
  · cases hr
  · cases hr

theorem exists_of_callWith_settled (hs : Tracked H s) {k : Key} {st : Stage} {r : Except Failure (Artifact α)}
    (hr : (callWith work s k st).1 = .settled r) : ∃ x : Artifact α, r = .ok x ∧ x.stage = st :=
  exists_of_enter_settled hs.valid hr

theorem callWith_ne_waiting (hafresh : StartsAfresh m s.usage) (k : Key) (st : Stage) :
    (callWith work s k st).1 ≠ .waiting m.id := by
  rw [callWith, enter]
  intro h
  rcases hrequest : s.cache.request s.now k st with ⟨x | id | m', c⟩ <;> rw [hrequest] at h
  · cases h
  · exact (hafresh.joins k st id (congrArg Prod.fst hrequest)).1 (Ticket.waiting.inj h)
  · exact (hafresh.other k st m' (congrArg Prod.fst hrequest)).1.ne' (Ticket.waiting.inj h)

theorem failed (hs : Tracked H s) (hended : .ended m (.error e) ∈ H) (hafresh : StartsAfresh m s.usage) :
    Failed work m e s where
  told := by
    intro name st started
    rw [inform]
    dsimp only
    rw [(hs.ended m _ hended).2.1]
    rfl
  passedOn := by
    intro f hf next hpos answer
    rw [moved_go _ (flight?_of_mem hs.valid.ids hf), advance, hpos]
    dsimp only
    rw [(hs.ended m _ hended).2.1]
  notJoined := callWith_ne_waiting work hafresh
  served := fun k st r hr => exists_of_callWith_settled work hs hr
  afresh := hafresh
  anew := by
    intro hold hnewer
    obtain ⟨m', hstart⟩ := hafresh.starts.mpr ⟨hold, hnewer⟩
    obtain ⟨-, hkey, hstage⟩ := eq_of_start hstart
    refine ⟨m', (hafresh.other _ _ m' hstart).1, hkey, hstage, ?_⟩
    have hrequest : s.cache.request s.now m.key m.stage = (.start m', (s.cache.request s.now m.key m.stage).2) :=
      Prod.ext hstart rfl
    rw [callWith, enter, hrequest]
    exact ⟨rfl, rfl⟩

/-- A failed computation leaves the cache as it was. Whatever is done with a cache, the end of a computation that runs and
fails takes away its handle, if that is still there, and changes nothing else; and a later request of its stage that finds
neither something young enough nor a newer handle starts anew. And whatever computations the callers bring along, and in
whatever order everything goes on: the failure is told when such a computation has its turn, nobody else is moved, and from
then on everybody with its ticket and every computation that waits for it gets this very failure, while nobody gets its
ticket any more. -/
theorem failure_leaves_cache (lifetime capacity : ℕ)
    (work : Session I α → Key → (st : Stage) → Routine I α (Yield α st)) :
    (∀ (acts : List (Action α)) (m : Computation) (e : Failure),
      let u := run acts (Usage.start lifetime capacity)
      m ∈ u.running → FailsAlone u m (u.step (.finish m (.failure e))) ∧
        ∀ later, StartsAfresh m (run later (u.step (.finish m (.failure e))))) ∧
    ∀ (before after : List (Move I α)) (m : Computation) (e : Failure) (answer : (q : I.Query) → Response (I.Answer q)),
      let s := (play (callWith work) before (.start (.empty lifetime capacity))).2
      let ended := s.moved (callWith work) (.go m.id answer)
      ⟨m, .active (.done (.error e))⟩ ∈ s.flights →
        ended.1 = [.ended m (.error e)] ∧ FailsAlone s.usage m ended.2.usage ∧ ended.2.callers = s.callers ∧
        ended.2.flights = s.flights.filter (fun f => f.computation.id != m.id) ∧
        Failed work m e (play (callWith work) after ended.2).2 := by
  refine ⟨fun acts m e hm => failure_run rfl hm e, ?_⟩
  intro before after m e answer s ended hf
  have hcall := lawful_callWith work
  have hs : Tracked _ s := (Tracked.start lifetime capacity).play hcall before
  obtain ⟨acts, hacts⟩ := (Tracked.start lifetime capacity).exists_run_play hcall before
  have hmoved : ended = ([.ended m (.error e)], s.land m (.error e)) := moved_go _ (flight?_of_mem hs.valid.ids hf) answer
  have husage : ended.2.usage = s.usage.step (.finish m (.failure e)) := by
    rw [hmoved]
    exact usage_land hs.valid.ids hf (.failure e)
  obtain ⟨halone, hafresh⟩ := failure_run hacts (mem_running hf) e
  have hended := hs.moved hcall (.go m.id answer)
  obtain ⟨later, hlater⟩ := hended.exists_run_play hcall after
  refine ⟨by rw [hmoved], husage ▸ halone, by rw [hmoved]; rfl, by rw [hmoved]; rfl, ?_⟩
  refine failed work (hended.play hcall after) ?_ ?_
  · refine List.mem_append_left _ (List.mem_append_right _ ?_)
    show _ ∈ ended.1
    rw [hmoved]
    exact List.mem_singleton.mpr rfl
  · rw [hlater]
    show StartsAfresh m (run later ended.2.usage)
    rw [husage]
    exact hafresh later

/-- Two callers ask for a tree and get the ticket of one computation, which fails. Both are told so; a third one starts a
computation of its own. -/
theorem failure_leaves_cache_twice :
    let k : Key := ⟨"acme", "vaults"⟩
    let down : Failure := .internal "down"
    let work : Session ⟨Empty, fun _ => Empty⟩ Stage → Key → (st : Stage) → Routine ⟨Empty, fun _ => Empty⟩ Stage
      (Yield Stage st) := fun _ _ _ => .done (.failure down)
    let s := (play (callWith work) [.ask k .tree, .ask k .tree] (.start (.empty 60000 8))).2
    let ended := s.moved (callWith work) (.go 0 nofun)
    s.usage.running = [⟨0, k, .tree, 0⟩] ∧
      (∀ name started, (ended.2.inform ⟨name, .tree, started, .waiting 0⟩).answer? = some (.error down)) ∧
      ended.2.cache = { s.cache with handles := [] } ∧
      ∃ id, 0 < id ∧ (callWith work ended.2 k .tree).1 = .waiting id := by
  intro k down work s ended
  obtain ⟨-, halone, -, -, hfailed⟩ := (failure_leaves_cache 60000 8 work).2 [.ask k .tree, .ask k .tree] []
    ⟨0, k, .tree, 0⟩ down nofun (List.mem_singleton.mpr rfl)
  have hnone : s.cache.handles.filter (· != ⟨k, .tree, 0⟩) = [] := by decide
  obtain ⟨m', hlt, -, -, hwaits, -⟩ := hfailed.anew nofun nofun
  exact ⟨rfl, fun name started => hfailed.told name .tree started,
    halone.cache.trans (congrArg (fun l => { s.cache with handles := l }) hnone), m'.id, hlt, hwaits⟩

end ContractMigration.Session
