import ContractMigration.Proofs.Cache.SingleFlight
import ContractMigration.Proofs.Session.Progress

/-! Who waits gets what it waits for. A ticket without an answer names a computation that runs; whatever happens then, the
ticket is settled by the end of this computation and by nothing else, and its answer is the very result the computation has
ended with. -/

namespace ContractMigration

open Usage

variable {I : Interface} {α : Type} [Staged α]

/-- A computation of a stage ends with a value of that stage, or fails. -/
def OfStage (st : Stage) (_ : List (Read α)) (r : Made α) : Prop := ∀ x, r = .ok x → Staged.stage x.1 = st

theorem OfStage.exists_yield {st : Stage} {reads : List (Read α)} {r : Made α} (hr : OfStage st reads r) :
    ∃ y : Yield α st, y.made = r := by
  cases r with
  | error e => exact ⟨.failure e, rfl⟩
  | ok x => exact ⟨.value x.1 x.2 (hr x rfl), rfl⟩

theorem ofStage_made {st : Stage} (y : Yield α st) (reads : List (Read α)) : OfStage st reads y.made := by
  rintro x hx
  cases y with
  | value v sources staged =>
    obtain rfl := Except.ok.inj hx
    exact staged
  | failure e => cases hx

theorem Artifact.ofStage_eq_ok {st : Stage} {a : Artifact α} (h : a.stage = st) : a.ofStage st = .ok a := if_pos h

theorem Artifact.bind_ofStage (a : Artifact α) (st : Stage) :
    (a.ofStage st).bind (Artifact.ofStage st) = a.ofStage st := by
  by_cases h : a.stage = st
  · rw [ofStage_eq_ok h]
    exact ofStage_eq_ok h
  · rw [ofStage, if_neg h]
    rfl

namespace Session

/-! ### Calls -/

/-- Stages were looked for, and nothing else was done. -/
inductive Looked (s : Session I α) : Session I α → Prop
  | refl : Looked s s
  | look {s' : Session I α} (h : Looked s s') (k : Key) (st : Stage) :
      Looked s { s' with cache := s'.cache.expire s'.now k st }

/-- How a call for a stage can turn out. After a look at what there is, it asks the cache and brings a computation of the
stage along, or it is answered at once. -/
inductive Called (s : Session I α) (k : Key) (st : Stage) : Ticket α × Session I α → Prop
  | enters {s' : Session I α} (hs' : Looked s s') {r : Routine I α (Made α)} (hr : r.Meets (OfStage st) []) :
      Called s k st (s'.enter k st r)
  | answers {s' : Session I α} (hs' : Looked s s') {r : Except Failure (Artifact α)}
      (hr : r.bind (Artifact.ofStage st) = r) : Called s k st (.settled r, s')

/-- A way to ask for stages in which every call turns out so. -/
def Lawful (call : Session I α → Key → Stage → Ticket α × Session I α) : Prop :=
  ∀ s k st, Valid s.usage → Called s k st (call s k st)

/-- Callers who ask the cache, each with a computation for the stage that it wants. -/
def callWith (work : Session I α → Key → (st : Stage) → Routine I α (Yield α st)) (s : Session I α) (k : Key)
    (st : Stage) : Ticket α × Session I α :=
  s.enter k st ((work s k st).bind fun y => .done y.made)

theorem lawful_callWith (work : Session I α → Key → (st : Stage) → Routine I α (Yield α st)) :
    Lawful (callWith work) := by
  intro s k st _
  refine .enters .refl (Routine.Meets.bind (P := fun _ _ => True) ?_ fun reads y _ => ofStage_made y reads)
  generalize ([] : List (Read α)) = reads
  induction work s k st generalizing reads with
  | done y => trivial
  | ask q next ih => exact fun a => ih a reads
  | await j t next ih => exact fun r => ih _ _
  | peek j t next ih => exact fun a => ih a _
  | pause next ih => exact ih reads
  | stall => trivial

/-- Everything that asking the cache can do. -/
theorem enter_cases (s : Session I α) (k : Key) (st : Stage) (r : Routine I α (Made α)) :
    (∃ x, s.cache.visible? s.now k st = some x ∧
      s.enter k st r = (.settled (x.ofStage st), { s with cache := (s.cache.request s.now k st).2 })) ∨
    (∃ id, s.cache.visible? s.now k st = none ∧ s.cache.registered? k st = some id ∧
      s.enter k st r = (.waiting id, { s with cache := (s.cache.request s.now k st).2 })) ∨
    ∃ m, s.cache.visible? s.now k st = none ∧ s.cache.registered? k st = none ∧
      m = ⟨s.cache.nextComputation, k, st, s.cache.epoch k st⟩ ∧ (s.cache.request s.now k st).1 = .start m ∧
      s.enter k st r = (.waiting m.id,
        { s with cache := (s.cache.request s.now k st).2, flights := s.flights ++ [⟨m, .active r⟩] }) := by
  rcases Cache.request_cases s.cache s.now k st with ⟨x, hx, e⟩ | ⟨id, hx, hid, e⟩ | ⟨hx, hid, e⟩
  · exact .inl ⟨x, hx, by rw [enter, e]⟩
  · exact .inr (.inl ⟨id, hx, hid, by rw [enter, e]⟩)
  · exact .inr (.inr ⟨_, hx, hid, rfl, by rw [e], by rw [enter, e]⟩)

theorem usage_enter (s : Session I α) (k : Key) (st : Stage) (r : Routine I α (Made α)) :
    (s.enter k st r).2.usage = s.usage.step (.request k st) := by
  rw [step_request, enter, usage, usage]
  dsimp only
  rcases s.cache.request s.now k st with ⟨x | id | m, c⟩ <;> simp [Request.started]

theorem results_enter (s : Session I α) (k : Key) (st : Stage) (r : Routine I α (Made α)) :
    (s.enter k st r).2.results = s.results := by
  rw [enter]
  rcases s.cache.request s.now k st with ⟨x | id | m, c⟩ <;> rfl

/-- Those who were there go on, and one may have been started. -/
theorem mem_flights_enter {s : Session I α} {k : Key} {st : Stage} {r : Routine I α (Made α)} {f : Flight I α} :
    f ∈ (s.enter k st r).2.flights ↔ f ∈ s.flights ∨
      (s.cache.request s.now k st).1 = .start f.computation ∧ f.position = .active r := by
  rw [enter]
  rcases s.cache.request s.now k st with ⟨x | id | m, c⟩
  · simp
  · simp
  · obtain ⟨m', pos⟩ := f
    simp [eq_comm]

omit [Staged α] in
/-- A computation that is started has the next number, and is for the stage that was asked for. -/
theorem eq_of_start {c : Cache α} {now : ℕ} {k : Key} {st : Stage} {m : Computation}
    (h : (c.request now k st).1 = .start m) : m.id = c.nextComputation ∧ m.key = k ∧ m.stage = st := by
  rcases Cache.request_cases c now k st with ⟨x, -, e⟩ | ⟨id, -, -, e⟩ | ⟨-, -, e⟩ <;> rw [e] at h
  · cases h
  · cases h
  · obtain rfl := Request.start.inj h
    exact ⟨rfl, rfl, rfl⟩

omit [Staged α] in
/-- A look changes the entries of the cache at most. -/
theorem Looked.frame {s s' : Session I α} (h : Looked s s') :
    ∃ c, s' = { s with cache := c } ∧ Cache.SameRest s.cache c := by
  induction h with
  | refl => exact ⟨s.cache, rfl, rfl⟩
  | look h k st ih =>
    obtain ⟨c, rfl, hc⟩ := ih
    exact ⟨_, rfl, hc.trans (Cache.SameRest.expire c s.now k st)⟩

theorem Looked.exists_run {s s' : Session I α} (h : Looked s s') :
    ∃ acts, (∀ a ∈ acts, a.isFinish = false) ∧ s'.usage = run acts s.usage := by
  induction h with
  | refl => exact ⟨[], nofun, rfl⟩
  | look h k st ih =>
    obtain ⟨acts, hquiet, hacts⟩ := ih
    exact ⟨acts ++ [.peek k st], List.forall_mem_append.mpr ⟨hquiet, by simp [Action.isFinish]⟩,
      by rw [run_append, ← hacts]; rfl⟩

/-- A call is something that is done with the cache, and ends no computation. -/
theorem Called.exists_run {s : Session I α} {k : Key} {st : Stage} {ts : Ticket α × Session I α}
    (h : Called s k st ts) : ∃ acts, (∀ a ∈ acts, a.isFinish = false) ∧ ts.2.usage = run acts s.usage := by
  cases h with
  | enters hs' hr =>
    obtain ⟨acts, hquiet, hacts⟩ := hs'.exists_run
    exact ⟨acts ++ [.request k st], List.forall_mem_append.mpr ⟨hquiet, by simp [Action.isFinish]⟩,
      by rw [run_append, usage_enter, hacts]; rfl⟩
  | answers hs' hr => exact hs'.exists_run

/-- Nobody is stopped by a call. -/
theorem Called.flights {s : Session I α} {k : Key} {st : Stage} {ts : Ticket α × Session I α} (h : Called s k st ts) :
    ∀ f ∈ s.flights, f ∈ ts.2.flights := by
  intro f hf
  cases h with
  | enters hs' hr =>
    obtain ⟨c, rfl, -⟩ := hs'.frame
    exact mem_flights_enter.mpr (.inl hf)
  | answers hs' hr =>
    obtain ⟨c, rfl, -⟩ := hs'.frame
    exact hf

/-- A call starts computations at most, and these have not come to wait for others. -/
theorem Called.active {s : Session I α} {k : Key} {st : Stage} {ts : Ticket α × Session I α} (h : Called s k st ts) :
    ∀ f ∈ ts.2.flights, f ∈ s.flights ∨ ∃ r, f.position = .active r := by
  intro f hf
  cases h with
  | @enters _ hs' r hr =>
    obtain ⟨c, rfl, -⟩ := hs'.frame
    exact (mem_flights_enter.mp hf).imp_right fun hstart => ⟨r, hstart.2⟩
  | answers hs' hr =>
    obtain ⟨c, rfl, -⟩ := hs'.frame
    exact .inl hf

theorem Called.results {s : Session I α} {k : Key} {st : Stage} {ts : Ticket α × Session I α} (h : Called s k st ts) :
    ts.2.results = s.results := by
  cases h with
  | enters hs' hr =>
    obtain ⟨c, rfl, -⟩ := hs'.frame
    exact results_enter _ k st _
  | answers hs' hr =>
    obtain ⟨c, rfl, -⟩ := hs'.frame
    rfl

/-- A call that is answered at once has started nothing, and its answer is for the stage that was asked for. -/
theorem Called.settled {s s' : Session I α} {k : Key} {st : Stage} {r : Except Failure (Artifact α)}
    (h : Called s k st (.settled r, s')) : r.bind (Artifact.ofStage st) = r ∧ s'.flights = s.flights := by
  generalize hts : ((.settled r, s') : Ticket α × Session I α) = ts at h
  cases h with
  | @enters s₁ hs' r' hr =>
    obtain ⟨c, rfl, -⟩ := hs'.frame
    rcases enter_cases { s with cache := c } k st r' with ⟨x, -, e⟩ | ⟨id, -, -, e⟩ | ⟨m, -, -, -, -, e⟩ <;>
      rw [e] at hts
    · obtain ⟨ht, rfl⟩ := Prod.mk.inj hts
      obtain rfl := Ticket.settled.inj ht
      exact ⟨x.bind_ofStage st, rfl⟩
    · cases hts
    · cases hts
  | answers hs' hr =>
    obtain ⟨c, rfl, -⟩ := hs'.frame
    obtain ⟨ht, rfl⟩ := Prod.mk.inj hts
    obtain rfl := Ticket.settled.inj ht
    exact ⟨hr, rfl⟩

/-! ### What is known of the computations of a session -/

/-- The computations that run and those that have ended, where `H` is what is told so far: each one that has ended is told
once and its result is kept, and each one that runs ends with a result for its stage. -/
structure Tracked (H : List (Event α)) (s : Session I α) : Prop where
  valid : Valid s.usage
  manned : Manned s.usage
  flights : ∀ f ∈ s.flights, ∃ reads, f.position.Meets (OfStage f.computation.stage) reads
  ended : ∀ m r, .ended m r ∈ H →
    m.id < s.cache.nextComputation ∧ s.result? m.id = some r ∧ ∀ f ∈ s.flights, f.computation.id ≠ m.id
  results : ∀ id r, s.result? id = some r → ∃ m, m.id = id ∧ .ended m r ∈ H
  staged : ∀ m x, .ended m (.ok x) ∈ H → x.stage = m.stage

namespace Tracked

variable {H : List (Event α)} {s s' : Session I α}

theorem start (lifetime capacity : ℕ) : Tracked [] (.start (.empty lifetime capacity) : Session I α) where
  valid := valid_start lifetime capacity
  manned := fun _ h => nomatch h
  flights := fun _ h => nomatch h
  ended := fun _ _ h => nomatch h
  results := fun _ _ h => nomatch h
  staged := fun _ _ h => nomatch h

/-- Only what is told of the ends of computations matters. -/
theorem congr {H' : List (Event α)} (hs : Tracked H s) (hH : ∀ m r, .ended m r ∈ H' ↔ .ended m r ∈ H) :
    Tracked H' s where
  valid := hs.valid
  manned := hs.manned
  flights := hs.flights
  ended := fun m r h => hs.ended m r ((hH m r).mp h)
  results := fun id r h => (hs.results id r h).imp fun m hm => hm.imp_right (hH m r).mpr
  staged := fun m x h => hs.staged m x ((hH m _).mp h)

/-- Something is done with the cache, and perhaps a computation is started. -/
theorem act (hs : Tracked H s) (a : Action α) (hu : s'.usage = s.usage.step a) (hr : s'.results = s.results)
    (hf : ∀ f ∈ s'.flights, f ∈ s.flights ∨
      .requested f.computation.key f.computation.stage (.start f.computation) ∈ s.usage.events a ∧
        f.position.Meets (OfStage f.computation.stage) []) : Tracked H s' := by
  have hcache : s'.cache = (s.usage.step a).cache := congrArg Usage.cache hu
  have hresult : ∀ id, s'.result? id = s.result? id := fun id => by rw [result?, result?, hr]
  refine ⟨hu ▸ valid_step hs.valid a, hu ▸ manned_step hs.manned a, fun f hfl => ?flights, fun m r hm => ?ended,
    fun id r h => hs.results id r (hresult id ▸ h), hs.staged⟩
  case flights =>
    rcases hf f hfl with hold | ⟨-, hmeets⟩
    · exact hs.flights f hold
    · exact ⟨[], hmeets⟩
  case ended =>
    obtain ⟨hlt, hres, hne⟩ := hs.ended m r hm
    refine ⟨hcache ▸ hlt.trans_le (advances_step s.usage a).computations, (hresult m.id).trans hres, fun f hfl => ?_⟩
    rcases hf f hfl with hold | ⟨hstart, -⟩
    · exact hne f hold
    · rw [(start_of_requested hstart).1]
      exact hlt.ne'

/-- Something is done with the cache that starts no computation. -/
theorem use (hs : Tracked H s) (a : Action α) (hu : s'.usage = s.usage.step a) (hr : s'.results = s.results)
    (hf : s'.flights = s.flights) : Tracked H s' := hs.act a hu hr fun _ hfl => .inl (hf ▸ hfl)

theorem looked (hs : Tracked H s) (h : Looked s s') : Tracked H s' := by
  induction h with
  | refl => exact hs
  | look h k st ih => exact ih.use (.peek k st) rfl rfl rfl

theorem enter (hs : Tracked H s) (k : Key) (st : Stage) {r : Routine I α (Made α)} (hr : r.Meets (OfStage st) []) :
    Tracked H (s.enter k st r).2 := by
  refine hs.act (.request k st) (usage_enter s k st r) (results_enter s k st r) fun f hf => ?_
  rcases mem_flights_enter.mp hf with hold | ⟨hstart, hpos⟩
  · exact .inl hold
  · have htold : .requested k st (.start f.computation) ∈ s.usage.events (.request k st) :=
      List.mem_singleton.mpr (congrArg (Usage.Event.requested k st) hstart.symm)
    obtain ⟨-, hkey, hstage⟩ := eq_of_start hstart
    rw [hkey, hstage, hpos]
    exact .inr ⟨htold, hr⟩

theorem called (hs : Tracked H s) {k : Key} {st : Stage} {ts : Ticket α × Session I α} (h : Called s k st ts) :
    Tracked H ts.2 := by
  cases h with
  | enters hs' hr => exact (hs.looked hs').enter k st hr
  | answers hs' hr => exact hs.looked hs'

theorem place (hs : Tracked H s) {f : Flight I α} (hf : f ∈ s.flights) {p : Position I α}
    (hp : ∃ reads, p.Meets (OfStage f.computation.stage) reads) : Tracked H (s.place f.computation.id p) := by
  refine ⟨usage_place s _ p ▸ hs.valid, usage_place s _ p ▸ hs.manned, fun f' hf' => ?flights, fun m r hm => ?ended,
    hs.results, hs.staged⟩
  case flights =>
    rcases flights_place_cases hs.valid.ids hf hf' with rfl | ⟨hold, -⟩
    · exact hp
    · exact hs.flights f' hold
  case ended =>
    obtain ⟨hlt, hres, hne⟩ := hs.ended m r hm
    refine ⟨hlt, hres, fun f' hf' => ?_⟩
    obtain ⟨g, hg, hc, -⟩ := mem_flights_place hf'
    rw [hc]
    exact hne g hg

theorem result?_land (s : Session I α) (m : Computation) (r : Made α) (id : ℕ) :
    (s.land m r).result? id = if id = m.id then some (s.cache.complete s.now m r).1 else s.result? id := by
  simp only [result?, land, List.lookup_cons]
  by_cases h : id = m.id
  · simp [h]
  · rw [if_neg h, beq_false_of_ne h]

theorem land (hs : Tracked H s) {f : Flight I α} (hf : f ∈ s.flights) {r : Made α}
    (hr : OfStage f.computation.stage [] r) :
    Tracked (H ++ [.ended f.computation (s.cache.complete s.now f.computation r).1]) (s.land f.computation r) := by
  obtain ⟨y, rfl⟩ := hr.exists_yield
  have hu := usage_land hs.valid.ids hf y
  have hnext : s.cache.nextComputation ≤ (s.land f.computation y.made).cache.nextComputation := by
    rw [show (s.land f.computation y.made).cache = _ from congrArg Usage.cache hu]
    exact (advances_step s.usage _).computations
  have hlt : f.computation.id < s.cache.nextComputation := hs.valid.started _ (mem_running hf)
  refine ⟨hu ▸ valid_step hs.valid _, hu ▸ manned_step hs.manned _,
    fun g hg => hs.flights g (List.mem_of_mem_filter hg), fun m r' hm => ?ended, fun id r' h => ?results,
    fun m x hm => ?staged⟩
  case ended =>
    rcases List.mem_append.mp hm with hm | hm
    · obtain ⟨hlt', hres, hne⟩ := hs.ended m r' hm
      refine ⟨hlt'.trans_le hnext, ?_, fun g hg => hne g (List.mem_of_mem_filter hg)⟩
      rw [result?_land, if_neg (hne f hf).symm, hres]
    · obtain ⟨rfl, rfl⟩ := Event.ended.inj (List.mem_singleton.mp hm)
      refine ⟨hlt.trans_le hnext, ?_, fun g hg => bne_iff_ne.mp (List.mem_filter.mp hg).2⟩
      rw [result?_land, if_pos rfl]
  case results =>
    rw [result?_land] at h
    by_cases hid : id = f.computation.id
    · rw [if_pos hid] at h
      exact ⟨f.computation, hid.symm, List.mem_append_right _ (Option.some.inj h ▸ List.mem_singleton.mpr rfl)⟩
    · rw [if_neg hid] at h
      exact (hs.results id r' h).imp fun m hm => hm.imp_right (List.mem_append_left _)
  case staged =>
    rcases List.mem_append.mp hm with hm | hm
    · exact hs.staged m x hm
    · obtain ⟨rfl, hx⟩ := Event.ended.inj (List.mem_singleton.mp hm)
      cases y with
      | failure e => cases hx
      | value v sources staged =>
        rw [Except.ok.inj hx]
        exact staged

variable {call : Session I α → Key → Stage → Ticket α × Session I α} (hcall : Lawful call)

include hcall

theorem progress (hs : Tracked H s) {f : Flight I α} (hf : f ∈ s.flights) {E : List (Event α)} {qs : List I.Query}
    (h : Progress call s f E qs s') : Tracked (H ++ E) s' := by
  obtain ⟨reads, hmeets⟩ := hs.flights f hf
  have hread : ∀ {t : Session I α} {r : Read α}, Tracked H t → Tracked (H ++ [.read f.computation.id r]) t :=
    fun ht => ht.congr (by simp)
  cases h with
  | stays => rwa [List.append_nil]
  | ends r hpos =>
    rw [hpos] at hmeets
    exact hs.land hf hmeets
  | goesOn p qs h =>
    rw [List.append_nil]
    exact hs.place hf ⟨reads, h.meets hmeets⟩
  | isServed k st next hpos r s₁ hc =>
    rw [hpos] at hmeets
    have hserved := hcall s k st hs.valid
    have hkept := hs.called hserved
    rw [hc] at hserved hkept
    obtain ⟨hsame, hfl⟩ := hserved.settled
    refine hread (hkept.place (hfl.symm ▸ hf) ⟨reads ++ [.received r], ?_⟩)
    have hnext := hmeets r
    rwa [hsame] at hnext
  | waits k st next hpos other s₁ hc =>
    rw [hpos] at hmeets
    have hwaits := hcall s k st hs.valid
    have hkept := hs.called hwaits
    rw [hc] at hwaits hkept
    rw [List.append_nil]
    exact hkept.place (hwaits.flights f hf) ⟨reads, hmeets⟩
  | looks k st next hpos =>
    rw [hpos] at hmeets
    have hkept : Tracked H (s.peek k st).2 := hs.use (.peek k st) rfl rfl rfl
    refine hread (hkept.place hf ⟨reads ++ [.looked k st (s.peek k st).1], ?_⟩)
    exact hmeets _
  | isTold other next hpos r hr =>
    rw [hpos] at hmeets
    refine hread (hs.place hf ⟨reads ++ [.received r], ?_⟩)
    exact hmeets r

theorem moved (hs : Tracked H s) (a : Move I α) : Tracked (H ++ (s.moved call a).1) (s.moved call a).2 := by
  have hquiet : ∀ {t : Session I α}, Tracked H t → Tracked (H ++ []) t := fun ht => by rwa [List.append_nil]
  cases a with
  | ask k st => exact hquiet (hs.called (hcall s k st hs.valid))
  | go id answer =>
    rcases progress_go call s id answer with ⟨f, hf, -, h⟩ | ⟨e, -⟩
    · exact hs.progress hcall hf h
    · rw [e]
      exact hquiet hs
  | insert k v =>
    have hinsert : Tracked H { s with cache := (s.cache.insert s.now k v).2 } := hs.use (.insert k v) rfl rfl rfl
    exact hinsert.congr (by simp [Session.moved])
  | invalidate k st => exact hquiet (hs.use (.invalidate k st) rfl rfl rfl)
  | clear => exact hquiet (hs.use .clear rfl rfl rfl)
  | peek k st => exact hquiet (hs.use (.peek k st) rfl rfl rfl)
  | contains k st => exact hquiet (hs.use (.contains k st) rfl rfl rfl)
  | wait time => exact hquiet (hs.use (.wait time) rfl rfl rfl)
  | attend callers rung round => exact hquiet (hs.use (.wait 0) rfl rfl rfl)

theorem play (hs : Tracked H s) (moves : List (Move I α)) :
    Tracked (H ++ (play call moves s).1) (play call moves s).2 :=
  play_invariant call (P := Tracked) (fun _ _ a ht => ht.moved hcall a) moves hs

/-! ### What is done with the cache -/

theorem exists_run_progress (hs : Tracked H s) {f : Flight I α} (hf : f ∈ s.flights) {E : List (Event α)}
    {qs : List I.Query} (h : Progress call s f E qs s') : ∃ acts, s'.usage = run acts s.usage := by
  cases h with
  | stays => exact ⟨[], rfl⟩
  | ends r hpos =>
    obtain ⟨reads, hmeets⟩ := hs.flights f hf
    rw [hpos] at hmeets
    have hr : OfStage f.computation.stage [] r := hmeets
    obtain ⟨y, rfl⟩ := hr.exists_yield
    exact ⟨[.finish f.computation y], usage_land hs.valid.ids hf y⟩
  | goesOn p qs h => exact ⟨[], usage_place s _ p⟩
  | isServed k st next hpos r s₁ hc =>
    obtain ⟨acts, -, hrun⟩ := (hcall s k st hs.valid).exists_run
    rw [hc, ← usage_place] at hrun
    exact ⟨acts, hrun⟩
  | waits k st next hpos other s₁ hc =>
    obtain ⟨acts, -, hrun⟩ := (hcall s k st hs.valid).exists_run
    rw [hc, ← usage_place] at hrun
    exact ⟨acts, hrun⟩
  | looks k st next hpos => exact ⟨[.peek k st], usage_place (s.peek k st).2 _ _⟩
  | isTold other next hpos r hr => exact ⟨[], usage_place s _ _⟩

/-- Every move of a session comes to something that is done with its cache. -/
theorem exists_run_moved (hs : Tracked H s) (a : Move I α) : ∃ acts, (s.moved call a).2.usage = run acts s.usage := by
  cases a with
  | ask k st => exact (hcall s k st hs.valid).exists_run.imp fun acts hrun => hrun.2
  | go id answer =>
    rcases progress_go call s id answer with ⟨f, hf, -, h⟩ | ⟨e, -⟩
    · exact hs.exists_run_progress hcall hf h
    · rw [e]
      exact ⟨[], rfl⟩
  | insert k v => exact ⟨[.insert k v], rfl⟩
  | invalidate k st => exact ⟨[.invalidate k st], rfl⟩
  | clear => exact ⟨[.clear], rfl⟩
  | peek k st => exact ⟨[.peek k st], rfl⟩
  | contains k st => exact ⟨[.contains k st], rfl⟩
  | wait time => exact ⟨[.wait time], rfl⟩
  | attend callers rung round => exact ⟨[], rfl⟩

theorem exists_run_play (hs : Tracked H s) (moves : List (Move I α)) :
    ∃ acts, (Session.play call moves s).2.usage = run acts s.usage := by
  induction moves generalizing H s with
  | nil => exact ⟨[], rfl⟩
  | cons a rest ih =>
    obtain ⟨acts, hacts⟩ := hs.exists_run_moved hcall a
    obtain ⟨acts', hacts'⟩ := ih (hs.moved hcall a)
    exact ⟨acts ++ acts', by rw [Session.play, hacts', hacts, run_append]⟩

/-! ### Computations that run -/

theorem running_called (hs : Tracked H s) {m : Computation} (hm : m ∈ s.usage.running) (k : Key) (st : Stage) :
    m ∈ (call s k st).2.usage.running := by
  obtain ⟨g, hg, rfl⟩ := List.mem_map.mp hm
  exact mem_running ((hcall s k st hs.valid).flights g hg)

theorem running_progress (hs : Tracked H s) {f : Flight I α} (hf : f ∈ s.flights) {E : List (Event α)}
    {qs : List I.Query} (h : Progress call s f E qs s') {m : Computation} (hm : m ∈ s.usage.running) :
    m ∈ s'.usage.running ∨ ∃ r, .ended m r ∈ E := by
  cases h with
  | stays => exact .inl hm
  | ends r hpos =>
    by_cases hmf : m = f.computation
    · exact .inr ⟨_, List.mem_singleton.mpr (by rw [hmf])⟩
    · refine .inl ?_
      obtain ⟨g, hg, rfl⟩ := List.mem_map.mp hm
      refine mem_running (List.mem_filter.mpr ⟨hg, bne_iff_ne.mpr fun hid => hmf ?_⟩)
      exact List.inj_on_of_nodup_map hs.valid.ids hm (mem_running hf) hid
  | goesOn p qs h => exact .inl (by rwa [usage_place])
  | isServed k st next hpos r s₁ hc =>
    have hkept := hs.running_called hcall hm k st
    rw [hc, ← usage_place] at hkept
    exact .inl hkept
  | waits k st next hpos other s₁ hc =>
    have hkept := hs.running_called hcall hm k st
    rw [hc, ← usage_place] at hkept
    exact .inl hkept
  | looks k st next hpos => exact .inl (by rwa [usage_place])
  | isTold other next hpos r hr => exact .inl (by rwa [usage_place])

/-- A computation that runs goes on running until it is told that it has ended. -/
theorem running_moved (hs : Tracked H s) (a : Move I α) {m : Computation} (hm : m ∈ s.usage.running) :
    m ∈ (s.moved call a).2.usage.running ∨ ∃ r, .ended m r ∈ (s.moved call a).1 := by
  cases a with
  | ask k st => exact .inl (hs.running_called hcall hm k st)
  | go id answer =>
    rcases progress_go call s id answer with ⟨f, hf, -, h⟩ | ⟨e, -⟩
    · exact hs.running_progress hcall hf h hm
    · rw [e]
      exact .inl hm
  | _ => exact .inl hm

theorem running_play (hs : Tracked H s) (moves : List (Move I α)) {m : Computation} (hm : m ∈ s.usage.running) :
    m ∈ (Session.play call moves s).2.usage.running ∨ ∃ r, .ended m r ∈ (Session.play call moves s).1 := by
  induction moves generalizing H s with
  | nil => exact .inl hm
  | cons a rest ih =>
    rw [Session.play]
    rcases hs.running_moved hcall a hm with hm | ⟨r, hr⟩
    · exact (ih (hs.moved hcall a) hm).imp_right (Exists.imp fun r hr => List.mem_append_right _ hr)
    · exact .inr ⟨r, List.mem_append_left _ hr⟩

omit hcall

/-- What is kept as the result of a computation, which runs or has ended, is what it has ended with. -/
theorem result?_iff (hs : Tracked H s) {m : Computation} (hm : m ∈ s.usage.running ∨ ∃ r, .ended m r ∈ H)
    {r : Except Failure (Artifact α)} : s.result? m.id = some r ↔ .ended m r ∈ H := by
  refine ⟨fun hr => ?_, fun hr => (hs.ended m r hr).2.1⟩
  obtain ⟨m', hid, hended⟩ := hs.results m.id r hr
  rcases hm with hm | ⟨r', hr'⟩
  · obtain ⟨f, hf, rfl⟩ := List.mem_map.mp hm
    exact absurd hid.symm ((hs.ended m' r hended).2.2 f hf)
  · obtain rfl := Option.some.inj (hr.symm.trans (hs.ended m r' hr').2.1)
    exact hr'

/-- Nothing is kept as the result of a computation that runs. -/
theorem result?_eq_none (hs : Tracked H s) {m : Computation} (hm : m ∈ s.usage.running) : s.result? m.id = none := by
  rcases hr : s.result? m.id with _ | r
  · rfl
  · obtain ⟨f, hf, rfl⟩ := List.mem_map.mp hm
    exact absurd rfl ((hs.ended _ r ((hs.result?_iff (.inl hm)).mp hr)).2.2 f hf)

/-- Nothing is kept under a number that no computation has got yet. -/
theorem result?_eq_none_of_le (hs : Tracked H s) {id : ℕ} (hid : s.cache.nextComputation ≤ id) : s.result? id = none := by
  rcases hr : s.result? id with _ | r
  · rfl
  · obtain ⟨m, rfl, hended⟩ := hs.results id r hr
    exact absurd hid (not_le.mpr (hs.ended m r hended).1)

/-- Whoever waits for a computation is told just what this computation has ended with. -/
theorem answer?_inform_iff (hs : Tracked H s) {m : Computation} (hm : m ∈ s.usage.running ∨ ∃ r, .ended m r ∈ H)
    (name : String) (started : Bool) {r : Except Failure (Artifact α)} :
    (s.inform ⟨name, m.stage, started, .waiting m.id⟩).answer? = some r ↔ .ended m r ∈ H := by
  rw [← hs.result?_iff hm, inform]
  dsimp only
  rcases hr : s.result? m.id with _ | r'
  · simp [Caller.answer?]
  · have hsame : r'.bind (Artifact.ofStage m.stage) = r' := by
      have hended := (hs.result?_iff hm).mp hr
      cases r' with
      | error e => rfl
      | ok x => exact Artifact.ofStage_eq_ok (hs.staged m x hended)
    simp [Caller.answer?, hsame]

end Tracked

/-- What someone with a ticket for a stage has been told by now. -/
def told? (s : Session I α) (st : Stage) (t : Ticket α) : Option (Except Failure (Artifact α)) :=
  (s.inform ⟨"", st, false, t⟩).answer?

theorem told?_settled (s : Session I α) (st : Stage) (r : Except Failure (Artifact α)) :
    s.told? st (.settled r) = some r := rfl

theorem told?_waiting (s : Session I α) (st : Stage) (id : ℕ) :
    s.told? st (.waiting id) = (s.result? id).map fun r => r.bind (Artifact.ofStage st) := by
  rw [told?, inform]
  dsimp only
  rcases s.result? id with _ | r <;> rfl

/-- What someone is told who waits for a computation is what it has ended with. -/
theorem result?_of_told {s : Session I α} {st : Stage} {id : ℕ} {x : Artifact α}
    (h : s.told? st (.waiting id) = some (.ok x)) : s.result? id = some (.ok x) := by
  rw [told?_waiting] at h
  obtain ⟨r, hr, hx⟩ := Option.map_eq_some_iff.mp h
  rw [hr]
  cases r with
  | error e => cases hx
  | ok y =>
    have hy : y.ofStage st = .ok x := hx
    rw [Artifact.ofStage] at hy
    split_ifs at hy
    rw [Except.ok.inj hy]

/-! ### Single flight -/

/-- The computation that a ticket without an answer is for. It runs after the call; either it has run before, and then
nothing is started, or it has just been started, and then there was nothing to join. -/
theorem exists_of_waiting {call : Session I α → Key → Stage → Ticket α × Session I α} (hcall : Lawful call)
    {H : List (Event α)} {s : Session I α} (hs : Tracked H s) {k : Key} {st : Stage} {id : ℕ}
    (hid : (call s k st).1 = .waiting id) :
    ∃ m, m.id = id ∧ m.key = k ∧ m.stage = st ∧ m ∈ (call s k st).2.usage.running ∧
      (s.cache.registered? k st = some id ∧ (call s k st).2.flights = s.flights ∨
        s.cache.registered? k st = none ∧ id = s.cache.nextComputation) := by
  have hcalled := hcall s k st hs.valid
  generalize call s k st = ts at hcalled hid
  cases hcalled with
  | @enters s₁ hs' r hr =>
    have hs₁ := hs.looked hs'
    obtain ⟨c, rfl, hc⟩ := hs'.frame
    have hregistered : c.registered? k st = s.cache.registered? k st := by
      rw [Cache.registered?, Cache.registered?, hc.handles]
    rcases enter_cases { s with cache := c } k st r with ⟨x, -, e⟩ | ⟨id', -, hreg, e⟩ | ⟨m, -, hnone, hm, -, e⟩ <;>
      rw [e] at hid ⊢
    · cases hid
    · obtain rfl := Ticket.waiting.inj hid
      obtain ⟨m, hm, hhandle⟩ := hs₁.manned _ (Cache.mem_of_registered? hreg)
      obtain ⟨hk, hst, hmid⟩ := Handle.mk.inj hhandle
      exact ⟨m, hmid.symm, hk.symm, hst.symm, hm, .inl ⟨hregistered ▸ hreg, rfl⟩⟩
    · obtain rfl := Ticket.waiting.inj hid
      refine ⟨m, rfl, by rw [hm], by rw [hm], ?_, .inr ⟨hregistered ▸ hnone, ?_⟩⟩
      · exact mem_running (f := ⟨m, .active r⟩) (List.mem_append_right _ (List.mem_singleton.mpr rfl))
      · rw [hm]
        exact hc.nextComputation
  | answers hs' hr => cases hid

/-- One computation at a time, for any number of callers. Whatever is done with a cache, the rule of a single flight holds.
And whatever computations the callers bring along, and in whatever order everything goes on: a call that gets a ticket
without an answer has either found a computation to join, and started nothing, or found none and started one; and at any
later time everybody with this ticket is told just what this one computation has ended with, and nothing before. -/
theorem singleFlight_told (lifetime capacity : ℕ)
    (work : Session I α → Key → (st : Stage) → Routine I α (Yield α st)) :
    (∀ acts : List (Action α), SingleFlight (story acts (Usage.start lifetime capacity))
      (run acts (Usage.start lifetime capacity))) ∧
    ∀ (before after : List (Move I α)) (k : Key) (st : Stage) (id : ℕ),
      let s := (play (callWith work) before (.start (.empty lifetime capacity))).2
      let whole := play (callWith work) (before ++ .ask k st :: after) (.start (.empty lifetime capacity))
      (callWith work s k st).1 = .waiting id →
        (s.cache.registered? k st = some id ∧ (callWith work s k st).2.flights = s.flights ∨
          s.cache.registered? k st = none ∧ id = s.cache.nextComputation) ∧
        ∃ m, m.id = id ∧ m.key = k ∧ m.stage = st ∧ m ∈ (callWith work s k st).2.usage.running ∧
          ∀ name started r, (whole.2.inform ⟨name, st, started, .waiting id⟩).answer? = some r ↔ .ended m r ∈ whole.1 := by
  refine ⟨singleFlight_run lifetime capacity, ?_⟩
  intro before after k st id s whole hid
  have hcall := lawful_callWith work
  have hsplit : whole = _ := play_append (callWith work) before (.ask k st :: after) (.start (.empty lifetime capacity))
  have hbefore : Tracked _ s := (Tracked.start lifetime capacity).play hcall before
  have hwhole : Tracked whole.1 whole.2 := (Tracked.start lifetime capacity).play hcall (before ++ .ask k st :: after)
  obtain ⟨m, rfl, rfl, rfl, hm, hjoined⟩ := exists_of_waiting hcall hbefore hid
  refine ⟨hjoined, m, rfl, rfl, rfl, hm, fun name started r => hwhole.answer?_inform_iff ?_ name started⟩
  have hlater := (hbefore.moved hcall (.ask m.key m.stage)).running_play hcall after hm
  rw [hsplit]
  exact hlater.imp_right fun ⟨r, hr⟩ => ⟨r, List.mem_append_right _ hr⟩

/-- Two callers ask for a tree; the second one joins the computation of the first, and is told what that one ends with. -/
theorem singleFlight_told_twice :
    let k : Key := ⟨"acme", "vaults"⟩
    let work : Session ⟨Empty, fun _ => Empty⟩ Stage → Key → (st : Stage) → Routine ⟨Empty, fun _ => Empty⟩ Stage
      (Yield Stage st) := fun _ _ st => .done (.value st [] rfl)
    let s := (play (callWith work) [.ask k .tree] (.start (.empty 60000 8))).2
    let whole := play (callWith work) [.ask k .tree, .ask k .tree, .go 0 nofun] (.start (.empty 60000 8))
    (callWith work s k .tree).1 = .waiting 0 ∧ (callWith work s k .tree).2.flights = s.flights ∧
      ∀ name started, (whole.2.inform ⟨name, .tree, started, .waiting 0⟩).answer? = some (.ok ⟨0, .tree⟩) := by
  intro k work s whole
  have hid : (callWith work s k .tree).1 = .waiting 0 := rfl
  obtain ⟨hjoined, m, -, -, -, hrunning, htold⟩ :=
    (singleFlight_told 60000 8 work).2 [.ask k .tree] [.go 0 nofun] k .tree 0 hid
  obtain rfl : m = ⟨0, k, .tree, 0⟩ := List.mem_singleton.mp hrunning
  refine ⟨hid, ?_, fun name started => (htold name started _).mpr (List.mem_singleton.mpr rfl)⟩
  rcases hjoined with ⟨-, hsame⟩ | ⟨hnone, -⟩
  · exact hsame
  · cases hnone

end Session

end ContractMigration
