import ContractMigration.Proofs.Pipeline.Order
import ContractMigration.Proofs.Pipeline.Refusals
import ContractMigration.Proofs.Pipeline.Once

/-! A request that runs alone. Its computations wait for one another in a row, from later stages to earlier ones, and only
the one of the earliest stage can go on. It was started because nothing could be served for it, and it stores only over
stages behind its own, so whatever was received by those who wait is still there when they go on; so what is made in the
end is stored, and is served to whoever asks next. -/

namespace ContractMigration

open Session Usage

/-! ### Epochs -/

section Epochs

variable {α : Type} [Staged α] {u : Usage α}

theorem epoch_step_request (u : Usage α) (j : Key) (t : Stage) (k : Key) (s : Stage) :
    (u.step (.request j t)).cache.epoch k s = u.cache.epoch k s := by
  rw [step_request]
  rcases Cache.request_cases u.cache u.now j t with ⟨x, -, e⟩ | ⟨id, -, -, e⟩ | ⟨-, -, e⟩ <;> rw [e]
  · exact (Cache.SameRest.touch u.cache j).epoch k s
  · exact (Cache.SameRest.expire u.cache u.now j t).epoch k s
  · exact (Cache.SameRest.expire u.cache u.now j t).epoch k s

theorem epoch_step_finish {m : Computation} (hm : m ∈ u.running) (r : Yield α m.stage) (k : Key) (s : Stage) :
    (u.step (.finish m r)).cache.epoch k s = u.cache.epoch k s := by
  obtain ⟨es, n, e, -⟩ := step_finish_frame hm r
  rw [e]
  rfl

/-- A computation that was not overtaken ends with a value made from what is current, and this is stored. -/
theorem visible?_step_value (hu : Valid u) {m : Computation} (hm : m ∈ u.running) (ho : ¬m.Overtaken u.cache)
    (hlifetime : 0 < u.cache.lifetime) {v : α} {sources : List (Artifact α)} (staged : Staged.stage v = m.stage)
    (hcurrent : u.cache.isCurrent m.key sources = true) :
    (u.step (.finish m (.value v sources staged))).cache.visible? u.now m.key (Staged.stage v) =
      some ⟨u.cache.nextArtifact, v⟩ := by
  have hepoch : u.cache.epoch m.key m.stage = m.epoch := le_antisymm (not_lt.mp ho) (hu.epochs m hm)
  have haccepts : u.cache.accepts m sources := by simp [Cache.accepts, hepoch, hcurrent]
  have hslot : (u.step (.finish m (.value v sources staged))).cache.slot? m.key (Staged.stage v) =
      some ⟨⟨u.cache.nextArtifact, v⟩, u.now⟩ := by
    rw [step_value hm, if_pos haccepts]
    exact Cache.slot?_store (c := ((u.cache.unregister m).wrap v).2) hu.room u.now m.key ⟨u.cache.nextArtifact, v⟩
  have hlasts : (u.step (.finish m (.value v sources staged))).cache.lifetime = u.cache.lifetime :=
    (advances_step u _).lifetime
  rw [visible?_eq_some_iff]
  refine ⟨_, ?_, hslot, rfl⟩
  simpa [Cache.isFresh, hlasts] using hlifetime

end Epochs

namespace Pipeline

theorem rank_of_needs {s t : Stage} (h : t ∈ s.needs) : t.rank < s.rank := by
  cases s <;> cases t <;> revert h <;> decide

/-! ### What a computation works with -/

/-- An artifact can be served, and everything that runs is of a later stage. -/
structure Kept (k : Key) (u : Usage Product) (x : Artifact Product) : Prop where
  visible : u.cache.visible? u.now k x.stage = some x
  earlier : ∀ m ∈ u.running, x.stage.rank < m.stage.rank

/-- A computation was not overtaken, and what it has received is kept. -/
structure Works (k : Key) (u : Usage Product) (m : Computation) (pos : Position Outside Product) : Prop where
  key : m.key = k
  current : ¬m.Overtaken u.cache
  relies : pos.Relies (OnlyFails fun _ => True) (fun j t => j = k ∧ t ∈ m.stage.needs) (OnlyFails fun _ => True)
  work : ∃ reads, (∀ x, .received (.ok x) ∈ reads → Kept k u x) ∧ pos.Meets (Derives k m.stage) reads ∧
    pos.InOrder reads

namespace Works

variable {k : Key} {u u' : Usage Product} {m : Computation}

theorem start (p : Pipeline) (hkey : m.key = k) (hcurrent : ¬m.Overtaken u.cache) :
    Works k u m (.active (p.task k m.stage)) where
  key := hkey
  current := hcurrent
  relies := p.relies_task (fun _ _ => trivial) k m.stage fun _ _ => trivial
  work := ⟨[], fun _ h => absurd h List.not_mem_nil, p.derives_task k m.stage, p.inOrder_task k m.stage⟩

theorem keeps {pos : Position Outside Product} (h : Works k u m pos) (hkept : ∀ x, Kept k u x → Kept k u' x)
    (hepoch : ∀ t, u'.cache.epoch k t = u.cache.epoch k t) : Works k u' m pos := by
  obtain ⟨reads, hreads, hwork⟩ := h.work
  refine ⟨h.key, ?_, h.relies, reads, fun x hx => hkept x (hreads x hx), hwork⟩
  have hcurrent := h.current
  rw [Computation.Overtaken, h.key] at hcurrent ⊢
  rwa [hepoch]

theorem goes {pos pos' : Position Outside Product} {qs : List Question} (h : Works k u m pos) (hg : pos.Goes pos' qs) :
    Works k u m pos' := by
  obtain ⟨reads, hreads, hmeets, horder⟩ := h.work
  refine ⟨h.key, h.current, hg.relies h.relies, reads, hreads, hg.meets hmeets, ?_⟩
  cases hg with
  | answered q next a => exact horder a
  | delayed q next a due => exact horder a
  | paused round next => exact horder
  | resumed round r => exact horder
  | woken due r => exact horder

theorem looked {j : Key} {t : Stage} {next : Option (Artifact Product) → Routine Outside Product (Made Product)}
    (h : Works k u m (.active (.peek j t next))) (a : Option (Artifact Product)) : Works k u m (.active (next a)) := by
  obtain ⟨reads, hreads, hmeets, horder⟩ := h.work
  refine ⟨h.key, h.current, h.relies a, _, fun x hx => hreads x ?_, hmeets a, horder a⟩
  simpa using hx

/-- It waits for a stage with what it has received from earlier ones. -/
theorem waits {j : Key} {t : Stage} {next : Except Failure (Artifact Product) → Routine Outside Product (Made Product)}
    (h : Works k u m (.active (.await j t next))) (hkept : ∀ x, Kept k u x → x.stage.rank < t.rank → Kept k u' x)
    (hepoch : ∀ t, u'.cache.epoch k t = u.cache.epoch k t) (other : ℕ) :
    Works k u' m (.joined other fun r => next (r.bind (Artifact.ofStage t))) := by
  obtain ⟨reads, hreads, hmeets, hlt, horder⟩ := h.work
  refine ⟨h.key, ?_, fun r _ => h.relies.2 r fun _ _ => trivial, reads, fun x hx => hkept x (hreads x hx) (hlt x hx),
    hmeets, horder⟩
  have hcurrent := h.current
  rw [Computation.Overtaken, h.key] at hcurrent ⊢
  rwa [hepoch]

theorem told {other : ℕ} {next : Except Failure (Artifact Product) → Routine Outside Product (Made Product)}
    (h : Works k u m (.joined other next)) {r : Except Failure (Artifact Product)} (hr : ∀ x, r = .ok x → Kept k u x) :
    Works k u m (.active (next r)) := by
  obtain ⟨reads, hreads, hmeets, horder⟩ := h.work
  refine ⟨h.key, h.current, h.relies r fun _ _ => trivial, _, fun x hx => ?_, hmeets r, horder r⟩
  rcases List.mem_append.mp hx with hx | hx
  · exact hreads x hx
  · exact hr x (Read.received.inj (List.mem_singleton.mp hx)).symm

/-- It is served at once. -/
theorem served {j : Key} {t : Stage} {next : Except Failure (Artifact Product) → Routine Outside Product (Made Product)}
    (h : Works k u m (.active (.await j t next))) {x : Artifact Product} (hst : x.stage = t) (hx : Kept k u x) :
    Works k u m (.active (next (.ok x))) := by
  have hwaits : Works k u m (.joined 0 fun r => next (r.bind (Artifact.ofStage t))) :=
    h.waits (fun _ hx _ => hx) (fun _ => rfl) 0
  have htold := hwaits.told (r := .ok x) fun y hy => Except.ok.inj hy ▸ hx
  have hsame : Except.bind (.ok x) (Artifact.ofStage t) = .ok x := Artifact.ofStage_eq_ok hst
  rwa [hsame] at htold

/-- What it ends with is made from what is current. -/
theorem made {v : Product} {sources : List (Artifact Product)} (h : Works k u m (.active (.done (.ok (v, sources))))) :
    Staged.stage v = m.stage ∧ u.cache.isCurrent k sources = true := by
  obtain ⟨reads, hreads, hmeets, -⟩ := h.work
  obtain ⟨staged, hderived⟩ := hmeets (v, sources) rfl
  refine ⟨staged, Cache.isCurrent_iff.mpr fun a ha => ?_⟩
  obtain ⟨y, hy, rfl⟩ := Cache.slot?_of_visible? (hreads a (hderived.received a ha)).visible
  exact ⟨y, hy, by simp [Artifact.isSame]⟩

end Works

/-! ### Computations in a row -/

/-- Nothing that runs is of an earlier stage. -/
def Lowest (u : Usage Product) (m : Computation) : Prop := ∀ m' ∈ u.running, m.stage.rank ≤ m'.stage.rank

/-- A computation waits for the next one below it. -/
structure Behind (u : Usage Product) (f : Flight Outside Product) (m : Computation) : Prop where
  joined : ∃ next, f.position = .joined m.id next
  below : m.stage.rank < f.computation.stage.rank
  next : ∀ m' ∈ u.running, m'.stage.rank < f.computation.stage.rank → m'.stage.rank ≤ m.stage.rank

/-- What is known of a session in which nothing runs but what a request for transformed files has caused, with its first
computation `m`. -/
structure Alone (k : Key) (m : Computation) (s : Session Outside Product) : Prop where
  works : ∀ f ∈ s.flights, Works k s.usage f.computation f.position
  distinct : ∀ m₁ ∈ s.usage.running, ∀ m₂ ∈ s.usage.running, m₁.stage = m₂.stage → m₁ = m₂
  queue : ∀ f ∈ s.flights, Lowest s.usage f.computation ∨ ∃ m' ∈ s.usage.running, Behind s.usage f m'
  told : ∀ f ∈ s.flights, ∀ id next x, f.position = .joined id next → s.result? id = some (.ok x) → Kept k s.usage x
  main : m ∈ s.usage.running ∨
    s.flights = [] ∧ ∀ x, s.result? m.id = some (.ok x) → s.cache.visible? s.now k .transform = some x

namespace Alone

variable {p : Pipeline} {k : Key} {m : Computation} {H : List (Session.Event Product)} {s s' : Session Outside Product}

/-- Of those that run, the others are of later stages than the lowest one. -/
theorem lt_of_lowest (hs : Alone k m s) {m₁ m₂ : Computation} (hm₁ : m₁ ∈ s.usage.running) (hlow : Lowest s.usage m₁)
    (hm₂ : m₂ ∈ s.usage.running) (hne : m₂ ≠ m₁) : m₁.stage.rank < m₂.stage.rank := by
  refine lt_of_le_of_ne (hlow m₂ hm₂) fun hrank => hne ?_
  exact hs.distinct m₂ hm₂ m₁ hm₁ (Stage.rank_injective hrank.symm)

/-- As long as anything runs, so does the first computation. -/
theorem main_of_mem (hs : Alone k m s) {f : Flight Outside Product} (hf : f ∈ s.flights) : m ∈ s.usage.running := by
  rcases hs.main with h | ⟨hnobody, -⟩
  · exact h
  · rw [hnobody] at hf
    exact absurd hf List.not_mem_nil

/-- Something is done with the cache that changes neither what can be served nor what runs. -/
theorem use (hs : Alone k m s) (hf : s'.flights = s.flights) (hr : s'.results = s.results)
    (hvisible : ∀ t, s'.cache.visible? s'.now k t = s.cache.visible? s.now k t)
    (hepoch : ∀ t, s'.cache.epoch k t = s.cache.epoch k t) : Alone k m s' := by
  have hrunning : s'.usage.running = s.usage.running := congrArg (List.map Flight.computation) hf
  have hkept : ∀ x, Kept k s.usage x → Kept k s'.usage x := fun x hx =>
    ⟨(hvisible x.stage).trans hx.visible, hrunning ▸ hx.earlier⟩
  have hresult : ∀ id, s'.result? id = s.result? id := fun id => by rw [result?, result?, hr]
  refine ⟨fun f hfl => (hs.works f (hf ▸ hfl)).keeps hkept hepoch, hrunning ▸ hs.distinct, fun f hfl => ?queue,
    fun f hfl id next x hpos hx => hkept x (hs.told f (hf ▸ hfl) id next x hpos (hresult id ▸ hx)), ?main⟩
  case queue =>
    rcases hs.queue f (hf ▸ hfl) with hlow | ⟨m', hm', hbehind⟩
    · rw [Lowest, hrunning]
      exact .inl hlow
    · refine .inr ⟨m', hrunning ▸ hm', hbehind.joined, hbehind.below, ?_⟩
      rw [hrunning]
      exact hbehind.next
  case main =>
    rw [hrunning, hf]
    exact hs.main.imp_right fun h => ⟨h.1, fun x hx => (hvisible _).trans (h.2 x (hresult _ ▸ hx))⟩

/-- The computation of the earliest stage goes on. -/
theorem place (hs : Alone k m s) (ht : Tracked H s) {f : Flight Outside Product} (hf : f ∈ s.flights)
    (hlow : Lowest s.usage f.computation) {pos : Position Outside Product} (hpos : Works k s.usage f.computation pos)
    (hjoined : ∀ id next, pos ≠ .joined id next) : Alone k m (s.place f.computation.id pos) := by
  have hu := usage_place s f.computation.id pos
  refine ⟨fun f' hf' => ?works, hu ▸ hs.distinct, fun f' hf' => ?queue, fun f' hf' id next x hpos' hx => ?told, ?main⟩
  case works =>
    rw [hu]
    rcases flights_place_cases ht.valid.ids hf hf' with rfl | ⟨hold, -⟩
    · exact hpos
    · exact hs.works f' hold
  case queue =>
    rw [hu]
    rcases flights_place_cases ht.valid.ids hf hf' with rfl | ⟨hold, -⟩
    · exact .inl hlow
    · exact hs.queue f' hold
  case told =>
    rw [hu]
    rcases flights_place_cases ht.valid.ids hf hf' with rfl | ⟨hold, -⟩
    · exact absurd hpos' (hjoined id next)
    · exact hs.told f' hold id next x hpos' hx
  case main =>
    rw [hu]
    exact .inl (hs.main_of_mem hf)

/-- A request that starts nothing. -/
theorem request (hs : Alone k m s) (hu : Valid s.usage) (st : Stage) :
    Alone k m { s with cache := (s.cache.request s.now k st).2 } :=
  hs.use rfl rfl (fun t => visible?_use (u := s.usage) (a := .request k st) hu rfl le_rfl k t)
    fun t => epoch_step_request s.usage k st k t

theorem peek (hs : Alone k m s) (hu : Valid s.usage) (j : Key) (st : Stage) : Alone k m (s.peek j st).2 :=
  hs.use rfl rfl (fun t => visible?_use (u := s.usage) (a := .peek j st) hu rfl le_rfl k t)
    fun t => (Cache.SameRest.expire s.cache s.now j st).epoch k t

/-- Beside another computation, the one that asks for a stage that cannot be served is not for transformed files, so what
is kept is of stages before the one that it asks for. -/
theorem lt_of_kept (hs : Alone k m s) {m₁ m₂ : Computation} (hm₁ : m₁ ∈ s.usage.running) (hlow : Lowest s.usage m₁)
    (hm₂ : m₂ ∈ s.usage.running) (hne : m₂ ≠ m₁) {st : Stage} (hst : st ∈ m₁.stage.needs)
    (hnone : s.cache.visible? s.now k st = none) {x : Artifact Product} (hx : Kept k s.usage x) :
    x.stage.rank < st.rank := by
  have hlt := hs.lt_of_lowest hm₁ hlow hm₂ hne
  have hearlier := hx.earlier m₁ hm₁
  have hother : x.stage ≠ st := fun h => by
    have hvisible := hx.visible
    rw [h] at hvisible
    exact absurd (hnone.symm.trans hvisible) nofun
  generalize m₁.stage = s₁ at hst hlt hearlier
  generalize m₂.stage = s₂ at hlt
  generalize x.stage = sx at hearlier hother
  revert hst hlt hearlier hother
  cases s₁ <;> cases s₂ <;> cases st <;> cases sx <;> decide

/-! ### A computation is started in front of the others -/

/-- The only difference between two sessions is a computation that runs in the second one, of an earlier stage than all
that run in the first one. -/
structure Started (k : Key) (n : Computation) (s s' : Session Outside Product) : Prop where
  running : s'.usage.running = s.usage.running ++ [n]
  first : ∀ m' ∈ s.usage.running, n.stage.rank < m'.stage.rank
  visible : ∀ t, s'.cache.visible? s'.now k t = s.cache.visible? s.now k t
  epoch : ∀ t, s'.cache.epoch k t = s.cache.epoch k t

namespace Started

variable {n : Computation}

theorem mem_running_iff (h : Started k n s s') {m' : Computation} :
    m' ∈ s'.usage.running ↔ m' ∈ s.usage.running ∨ m' = n := by
  rw [h.running, List.mem_append, List.mem_singleton]

theorem mem_running (h : Started k n s s') : n ∈ s'.usage.running := h.mem_running_iff.mpr (.inr rfl)

/-- What is kept is of stages before the one that is started. -/
theorem kept (h : Started k n s s') {x : Artifact Product} (hx : Kept k s.usage x) (hlt : x.stage.rank < n.stage.rank) :
    Kept k s'.usage x := by
  refine ⟨(h.visible x.stage).trans hx.visible, fun m' hm' => ?_⟩
  rcases h.mem_running_iff.mp hm' with hm' | rfl
  · exact hx.earlier m' hm'
  · exact hlt

theorem lowest (h : Started k n s s') : Lowest s'.usage n := by
  intro m' hm'
  rcases h.mem_running_iff.mp hm' with hm' | rfl
  · exact (h.first m' hm').le
  · exact le_rfl

theorem distinct (h : Started k n s s')
    (hs : ∀ m₁ ∈ s.usage.running, ∀ m₂ ∈ s.usage.running, m₁.stage = m₂.stage → m₁ = m₂) :
    ∀ m₁ ∈ s'.usage.running, ∀ m₂ ∈ s'.usage.running, m₁.stage = m₂.stage → m₁ = m₂ := by
  have hother : ∀ m' ∈ s.usage.running, m'.stage ≠ n.stage := fun m' hm' hsame =>
    absurd (h.first m' hm') (by rw [hsame]; exact lt_irrefl _)
  intro m₁ hm₁ m₂ hm₂ hsame
  rcases h.mem_running_iff.mp hm₁ with hm₁ | rfl <;> rcases h.mem_running_iff.mp hm₂ with hm₂ | rfl
  · exact hs m₁ hm₁ m₂ hm₂ hsame
  · exact absurd hsame (hother m₁ hm₁)
  · exact absurd hsame.symm (hother m₂ hm₂)
  · rfl

/-- Who waited for the next computation below still does: the one that was started is below that as well. -/
theorem behind (h : Started k n s s') {g : Flight Outside Product} {m' : Computation} (hm' : m' ∈ s.usage.running)
    (hg : Behind s.usage g m') : Behind s'.usage g m' := by
  refine ⟨hg.joined, hg.below, fun m'' hm'' hlt => ?_⟩
  rcases h.mem_running_iff.mp hm'' with hm'' | rfl
  · exact hg.next m'' hm'' hlt
  · exact (h.first m' hm').le

/-- The lowest computation waits for the one that was started. -/
theorem behind_of_lowest (h : Started k n s s') {g : Flight Outside Product} (hlow : Lowest s.usage g.computation)
    (hbelow : n.stage.rank < g.computation.stage.rank) (hjoined : ∃ next, g.position = .joined n.id next) :
    Behind s'.usage g n := by
  refine ⟨hjoined, hbelow, fun m' hm' hlt => ?_⟩
  rcases h.mem_running_iff.mp hm' with hm' | rfl
  · exact absurd hlt (not_lt.mpr (hlow m' hm'))
  · exact le_rfl

/-- A request starts a computation of a stage that the lowest computation needs. -/
theorem of_request (hu : Valid s.usage) {f : Flight Outside Product} (hlow : Lowest s.usage f.computation) {st : Stage}
    (hst : st ∈ f.computation.stage.needs) (hn : n.stage = st) (r : Routine Outside Product (Made Product)) :
    Started k n s { s with cache := (s.cache.request s.now k st).2, flights := s.flights ++ [⟨n, .active r⟩] } where
  running := by simp [Session.usage]
  first m' hm' := hn ▸ (rank_of_needs hst).trans_le (hlow m' hm')
  visible t := visible?_use (u := s.usage) (a := .request k st) hu rfl le_rfl k t
  epoch t := epoch_step_request s.usage k st k t

end Started

/-- A computation of a stage that cannot be served is started in front of the one that asks for it. -/
theorem starts (hs : Alone k m s) (ht : Tracked H s) {f : Flight Outside Product} (hf : f ∈ s.flights)
    (hlow : Lowest s.usage f.computation) {st : Stage}
    {next : Except Failure (Artifact Product) → Routine Outside Product (Made Product)}
    (hpos : f.position = .active (.await k st next)) {n : Computation}
    (hnone : s.cache.visible? s.now k st = none) (hn : n = ⟨s.cache.nextComputation, k, st, s.cache.epoch k st⟩)
    (hs' : s' = { s with
      cache := (s.cache.request s.now k st).2, flights := s.flights ++ [⟨n, .active (p.task k st)⟩] })
    (ht' : Tracked H s') :
    Alone k m (s'.place f.computation.id (.joined n.id fun r => next (r.bind (Artifact.ofStage st)))) := by
  have hworks := hs.works f hf
  rw [hpos] at hworks
  have hst : st ∈ f.computation.stage.needs := hworks.relies.1.2
  obtain rfl : n.stage = st := by rw [hn]
  have h : Started k n s s' := hs' ▸ Started.of_request ht.valid hlow hst rfl (p.task k n.stage)
  have hf' : f ∈ s'.flights := by rw [hs']; exact List.mem_append_left _ hf
  have hresult : ∀ id, s'.result? id = s.result? id := fun id => by rw [hs']; rfl
  have hothers : ∀ g ∈ s.flights, g.computation.id ≠ f.computation.id → ∀ x, Kept k s.usage x → Kept k s'.usage x :=
    fun g hg hne x hx => h.kept hx
      (hs.lt_of_kept (mem_running hf) hlow (mem_running hg) (fun h => hne (congrArg _ h)) hst hnone hx)
  have hu := usage_place s' f.computation.id (.joined n.id fun r => next (r.bind (Artifact.ofStage n.stage)))
  -- a computation is the one that waits, the one that was started, or one that waited before
  have hcases : ∀ g ∈ (s'.place f.computation.id (.joined n.id fun r => next (r.bind (Artifact.ofStage n.stage)))).flights,
      g = ⟨f.computation, .joined n.id fun r => next (r.bind (Artifact.ofStage n.stage))⟩ ∨
      g = ⟨n, .active (p.task k n.stage)⟩ ∨ g ∈ s.flights ∧ g.computation.id ≠ f.computation.id := by
    intro g hg
    rcases flights_place_cases ht'.valid.ids hf' hg with h | ⟨hold, hne⟩
    · exact .inl h
    · rw [hs', List.mem_append, List.mem_singleton] at hold
      exact .inr (hold.symm.imp_right fun h => ⟨h, hne⟩)
  refine ⟨fun g hg => ?works, hu ▸ h.distinct hs.distinct, fun g hg => ?queue, fun g hg id next' x hgpos hx => ?told,
    .inl ?main⟩
  case works =>
    rw [hu]
    rcases hcases g hg with rfl | rfl | ⟨hold, hne⟩
    · exact hworks.waits (fun x => h.kept) h.epoch n.id
    · refine Works.start p (by rw [hn]) ?_
      rw [Computation.Overtaken, not_lt, show n.key = k by rw [hn], show n.epoch = s.cache.epoch k n.stage by rw [hn]]
      exact (h.epoch n.stage).le
    · exact (hs.works g hold).keeps (hothers g hold hne) h.epoch
  case queue =>
    rw [hu]
    rcases hcases g hg with rfl | rfl | ⟨hold, hne⟩
    · exact .inr ⟨n, h.mem_running, h.behind_of_lowest (g := ⟨f.computation, _⟩) hlow (rank_of_needs hst) ⟨_, rfl⟩⟩
    · exact .inl h.lowest
    · rcases hs.queue g hold with hlow' | ⟨m', hm', hbehind⟩
      · have hlt := hs.lt_of_lowest (mem_running hf) hlow (mem_running hold) fun h => hne (congrArg _ h)
        exact absurd (hlow' _ (mem_running hf)) (not_le.mpr hlt)
      · exact .inr ⟨m', h.mem_running_iff.mpr (.inl hm'), h.behind hm' hbehind⟩
  case told =>
    rw [hu]
    rcases hcases g hg with rfl | rfl | ⟨hold, hne⟩
    · obtain ⟨rfl, -⟩ := Position.joined.inj hgpos
      cases (ht'.result?_eq_none h.mem_running).symm.trans hx
    · cases hgpos
    · exact hothers g hold hne x (hs.told g hold id next' x hgpos ((hresult id).symm.trans hx))
  case main =>
    rw [hu]
    exact h.mem_running_iff.mpr (.inl (hs.main_of_mem hf))

/-! ### The computation of the earliest stage ends -/

section Lands

variable {f : Flight Outside Product}

theorem mem_running_land (ht : Tracked H s) (hf : f ∈ s.flights) (y : Yield Product f.computation.stage)
    {m' : Computation} :
    m' ∈ (s.land f.computation y.made).usage.running ↔ m' ∈ s.usage.running ∧ m' ≠ f.computation := by
  rw [usage_land ht.valid.ids hf y, Usage.step, if_pos (mem_running hf)]
  simp

theorem epoch_land (ht : Tracked H s) (hf : f ∈ s.flights) (y : Yield Product f.computation.stage) (t : Stage) :
    (s.land f.computation y.made).usage.cache.epoch k t = s.usage.cache.epoch k t := by
  rw [usage_land ht.valid.ids hf y]
  exact epoch_step_finish (mem_running hf) y k t

/-- What is stored in the end takes the place of nothing that is kept, as that is of earlier stages. -/
theorem kept_land (ht : Tracked H s) (hf : f ∈ s.flights) (hkey : f.computation.key = k)
    (y : Yield Product f.computation.stage) {x : Artifact Product} (hx : Kept k s.usage x) :
    Kept k (s.land f.computation y.made).usage x := by
  have hlasts := visible?_land ht.valid hf y (hx.earlier _ (mem_running hf))
  rw [hkey] at hlasts
  exact ⟨hlasts.trans hx.visible, fun m' hm' => hx.earlier m' ((mem_running_land ht hf y).mp hm').1⟩

/-- What the computation of the earliest stage has made is kept. -/
theorem kept_of_made (hs : Alone k m s) (ht : Tracked H s) (hlifetime : 0 < s.cache.lifetime) (hf : f ∈ s.flights)
    (hlow : Lowest s.usage f.computation) {y : Yield Product f.computation.stage}
    (hworks : Works k s.usage f.computation (.active (.done y.made))) {x : Artifact Product}
    (hx : (s.cache.complete s.now f.computation y.made).1 = .ok x) :
    x.stage = f.computation.stage ∧ Kept k (s.land f.computation y.made).usage x := by
  cases y with
  | failure e => cases hx
  | value v sources staged =>
    obtain rfl := Except.ok.inj hx
    have hcurrent : s.usage.cache.isCurrent f.computation.key sources = true := hworks.key.symm ▸ hworks.made.2
    have hvisible := visible?_step_value ht.valid (mem_running hf) hworks.current hlifetime staged hcurrent
    rw [hworks.key, ← usage_land ht.valid.ids hf] at hvisible
    refine ⟨staged, hvisible, fun m' hm' => ?_⟩
    obtain ⟨hother, hne⟩ := (mem_running_land ht hf _).mp hm'
    have hlt := hs.lt_of_lowest (mem_running hf) hlow hother hne
    rwa [← staged] at hlt

/-- Nothing is of a later stage than transformed files, so nothing runs beside their computation once it is the lowest. -/
theorem eq_of_lowest_transform (hs : Alone k m s) {m₁ m₂ : Computation} (hm₁ : m₁ ∈ s.usage.running)
    (hlow : Lowest s.usage m₁) (htransform : m₁.stage = .transform) (hm₂ : m₂ ∈ s.usage.running) : m₂ = m₁ := by
  by_contra hne
  have hlt := hs.lt_of_lowest hm₁ hlow hm₂ hne
  rw [htransform] at hlt
  generalize m₂.stage = st at hlt
  revert hlt
  cases st <;> decide

/-- The computation of the earliest stage ends. What it has made is kept for the one that waits for it, which is that of
the earliest stage now. -/
theorem land (hs : Alone k m s) (ht : Tracked H s) (hlifetime : 0 < s.cache.lifetime) (hm : m.stage = .transform)
    (hf : f ∈ s.flights) (hlow : Lowest s.usage f.computation) {r : Made Product}
    (hpos : f.position = .active (.done r)) : Alone k m (s.land f.computation r) := by
  have hworks := hs.works f hf
  rw [hpos] at hworks
  obtain ⟨reads, hmeets⟩ := ht.flights f hf
  rw [hpos] at hmeets
  have hr : OfStage f.computation.stage [] r := hmeets
  obtain ⟨y, rfl⟩ := hr.exists_yield
  have hrun := mem_running hf
  have hmem : ∀ {m'}, m' ∈ (s.land f.computation y.made).usage.running ↔ m' ∈ s.usage.running ∧ m' ≠ f.computation :=
    mem_running_land ht hf y
  have hkept : ∀ x, Kept k s.usage x → Kept k (s.land f.computation y.made).usage x := fun _ =>
    kept_land ht hf hworks.key y
  have hnew : ∀ {x}, (s.cache.complete s.now f.computation y.made).1 = .ok x →
      x.stage = f.computation.stage ∧ Kept k (s.land f.computation y.made).usage x :=
    hs.kept_of_made ht hlifetime hf hlow hworks
  refine ⟨fun g hg => ?works, ?distinct, fun g hg => ?queue, fun g hg id next x hgpos hx => ?told, ?main⟩
  case works =>
    exact (hs.works g (List.mem_of_mem_filter hg)).keeps hkept (epoch_land ht hf y)
  case distinct =>
    exact fun m₁ hm₁ m₂ hm₂ => hs.distinct m₁ (hmem.mp hm₁).1 m₂ (hmem.mp hm₂).1
  case queue =>
    rcases hs.queue g (List.mem_of_mem_filter hg) with hlow' | ⟨m', hm', hbehind⟩
    · exact .inl fun m' hm' => hlow' m' (hmem.mp hm').1
    · by_cases hmf : m' = f.computation
      · subst hmf
        refine .inl fun m'' hm'' => not_lt.mp fun hlt => ?_
        obtain ⟨hm'', hne⟩ := hmem.mp hm''
        exact absurd (hbehind.next m'' hm'' hlt) (not_le.mpr (hs.lt_of_lowest hrun hlow hm'' hne))
      · exact .inr ⟨m', hmem.mpr ⟨hm', hmf⟩, hbehind.joined, hbehind.below,
          fun m'' hm'' => hbehind.next m'' (hmem.mp hm'').1⟩
  case told =>
    rw [Tracked.result?_land] at hx
    split_ifs at hx with hid
    · exact (hnew (Option.some.inj hx)).2
    · exact hkept x (hs.told g (List.mem_of_mem_filter hg) id next x hgpos hx)
  case main =>
    by_cases hmf : m = f.computation
    · have htransform : f.computation.stage = .transform := hmf ▸ hm
      refine .inr ⟨List.eq_nil_iff_forall_not_mem.mpr fun g hg => ?_, fun x hx => ?_⟩
      · obtain ⟨hg', hne⟩ := hmem.mp (mem_running hg)
        exact hne (hs.eq_of_lowest_transform hrun hlow htransform hg')
      · rw [Tracked.result?_land, if_pos (congrArg Computation.id hmf)] at hx
        obtain ⟨hstage, hx⟩ := hnew (Option.some.inj hx)
        have hvisible := hx.visible
        rwa [hstage.trans htransform] at hvisible
    · exact .inl (hmem.mpr ⟨hs.main_of_mem hf, hmf⟩)

end Lands

/-- What the computation of the earliest stage asks for can be served, or nothing that runs is for it. -/
theorem call_cases (hs : Alone k m s) (ht : Tracked H s) (hp : p.hasRepository = true) {f : Flight Outside Product}
    (hf : f ∈ s.flights) (hlow : Lowest s.usage f.computation) {st : Stage}
    {next : Except Failure (Artifact Product) → Routine Outside Product (Made Product)}
    (hpos : f.position = .active (.await k st next)) :
    (∃ x, x.stage = st ∧ Kept k s.usage x ∧
      p.call s k st = (.settled (.ok x), { s with cache := (s.cache.request s.now k st).2 })) ∨
    ∃ n : Computation, s.cache.visible? s.now k st = none ∧
      n = ⟨s.cache.nextComputation, k, st, s.cache.epoch k st⟩ ∧ p.call s k st = (.waiting n.id,
        { s with cache := (s.cache.request s.now k st).2, flights := s.flights ++ [⟨n, .active (p.task k st)⟩] }) := by
  have hworks := hs.works f hf
  rw [hpos] at hworks
  have hbelow : st.rank < f.computation.stage.rank := rank_of_needs hworks.relies.1.2
  rw [Pipeline.call, if_pos hp]
  rcases enter_cases s k st (p.task k st) with ⟨x, hx, e⟩ | ⟨id, -, hid, e⟩ | ⟨n, hnone, -, hn, -, e⟩
  · obtain ⟨y, hy, rfl⟩ := Cache.slot?_of_visible? hx
    obtain rfl : y.artifact.stage = st := ht.valid.staged k st y hy
    rw [Artifact.ofStage_eq_ok rfl] at e
    exact .inl ⟨y.artifact, rfl, ⟨hx, fun m' hm' => hbelow.trans_le (hlow m' hm')⟩, e⟩
  · -- a computation that could be joined would be of an earlier stage
    obtain ⟨m', hm', hhandle⟩ := ht.manned _ (Cache.mem_of_registered? hid)
    obtain rfl : st = m'.stage := congrArg Handle.stage hhandle
    exact absurd (hlow m' hm') (not_le.mpr hbelow)
  · exact .inr ⟨n, hnone, hn, e⟩

/-- Whoever is not of the earliest stage waits until it can be told something. -/
theorem lowest_or_waits (hs : Alone k m s) (ht : Tracked H s) {f : Flight Outside Product} (hf : f ∈ s.flights) :
    Lowest s.usage f.computation ∨ ∃ id next, f.position = .joined id next ∧ s.result? id = none := by
  refine (hs.queue f hf).imp_right ?_
  rintro ⟨m', hm', ⟨next, hpos⟩, -⟩
  exact ⟨m'.id, next, hpos, ht.result?_eq_none hm'⟩

theorem progress (hs : Alone k m s) (ht : Tracked H s) (hp : p.hasRepository = true) (hlifetime : 0 < s.cache.lifetime)
    (hm : m.stage = .transform) {f : Flight Outside Product} (hf : f ∈ s.flights) {E : List (Session.Event Product)}
    {qs : List Outside.Query} (h : Progress p.call s f E qs s') : Alone k m s' := by
  have hworks := hs.works f hf
  have hplaced : ∀ pos, Valid (s.place f.computation.id pos).usage := fun pos => by
    rw [usage_place]
    exact ht.valid
  rcases hs.lowest_or_waits ht hf with hlow | ⟨id, next, hwaits, hnone⟩
  · cases h with
    | stays => exact hs
    | ends r hpos => exact hs.land ht hlifetime hm hf hlow hpos
    | goesOn pos qs h => exact hs.place ht hf hlow (hworks.goes h) h.ne_joined
    | isServed j st next hpos r s₁ hc =>
      rw [hpos] at hworks
      obtain rfl : j = k := hworks.relies.1.1
      rcases hs.call_cases ht hp hf hlow hpos with ⟨x, hst, hx, e⟩ | ⟨n, -, -, e⟩
      · obtain ⟨ht₁, rfl⟩ := Prod.mk.inj (e.symm.trans hc)
        obtain rfl := Ticket.settled.inj ht₁
        exact (hs.place ht hf hlow (hworks.served hst hx) fun _ _ => nofun).request (hplaced _) st
      · cases e.symm.trans hc
    | waits j st next hpos other s₁ hc =>
      rw [hpos] at hworks
      obtain rfl : j = k := hworks.relies.1.1
      have htracked := ht.called (p.lawful_call s j st ht.valid)
      rcases hs.call_cases ht hp hf hlow hpos with ⟨x, -, -, e⟩ | ⟨n, hnone, hn, e⟩
      · cases e.symm.trans hc
      · obtain ⟨ht₁, rfl⟩ := Prod.mk.inj (e.symm.trans hc)
        obtain rfl := Ticket.waiting.inj ht₁
        rw [e] at htracked
        exact hs.starts ht hf hlow hpos hnone hn rfl htracked
    | looks j st next hpos =>
      rw [hpos] at hworks
      exact (hs.place ht hf hlow (hworks.looked _) fun _ _ => nofun).peek (hplaced _) j st
    | isTold other next hpos r hr =>
      rw [hpos] at hworks
      refine hs.place ht hf hlow (hworks.told ?_) fun _ _ => nofun
      rintro x rfl
      exact hs.told f hf other next x hpos hr
  · -- nothing is kept yet of what it waits for
    rcases h.of_joined hwaits with rfl | ⟨r, hr, -⟩
    · exact hs
    · cases hnone.symm.trans hr

theorem moved (hs : Alone k m s) (ht : Tracked H s) (hp : p.hasRepository = true) (hlifetime : 0 < s.cache.lifetime)
    (hm : m.stage = .transform) {a : Move Outside Product} (ha : IsOwn 0 a) : Alone k m (s.moved p.call a).2 := by
  rcases progress_of_own s ha with ⟨f, hf, -, h⟩ | ⟨e, -⟩
  · exact hs.progress ht hp hlifetime hm hf h
  · rwa [e]

/-- A session after some moves of computations. -/
theorem play (hs : Alone k m s) (ht : Tracked H s) (hp : p.hasRepository = true) (hlifetime : 0 < s.cache.lifetime)
    (hm : m.stage = .transform) {moves : List (Move Outside Product)} (hmoves : ∀ a ∈ moves, IsOwn 0 a) :
    Alone k m (Session.play p.call moves s).2 := by
  induction moves generalizing H s with
  | nil => exact hs
  | cons a rest ih =>
    rw [List.forall_mem_cons] at hmoves
    have hlasts : (s.moved p.call a).2.cache.lifetime = s.cache.lifetime := (lasts_play ht p [a]).2
    exact ih (hs.moved ht hp hlifetime hm hmoves.1) (ht.moved p.lawful_call a) (hlasts ▸ hlifetime) hmoves.2

/-- A request for transformed files that can neither be served nor join a computation is alone at first. -/
theorem start (p : Pipeline) {m : Computation} (hkey : m.key = k) (hm : m.stage = .transform)
    (hcurrent : ¬m.Overtaken s.cache) (hflights : s.flights = [⟨m, .active (p.task k .transform)⟩]) : Alone k m s := by
  have hrunning : s.usage.running = [m] := congrArg (List.map Flight.computation) hflights
  refine ⟨?works, ?distinct, ?queue, ?told, .inl ?main⟩
  case works =>
    rw [hflights, List.forall_mem_singleton]
    exact hm ▸ Works.start p hkey hcurrent
  case distinct =>
    rw [hrunning, List.forall_mem_singleton, List.forall_mem_singleton]
    exact fun _ => rfl
  case queue =>
    rw [hflights, List.forall_mem_singleton, Lowest, hrunning, List.forall_mem_singleton]
    exact .inl le_rfl
  case told =>
    rw [hflights, List.forall_mem_singleton]
    exact fun _ _ _ h => nomatch h
  case main =>
    rw [hrunning]
    exact List.mem_singleton.mpr rfl

end Alone

/-! ### Whole requests -/

section Requests

variable {p : Pipeline} {k : Key} {H : List (Session.Event Product)} {s : Session Outside Product}

/-- Where no computation runs none goes on, and nothing is asked. -/
theorem play_of_nobody {moves : List (Move Outside Product)} (hmoves : ∀ a ∈ moves, IsOwn 0 a) (hs : s.flights = []) :
    play p.call moves s = ([], s) := play_of_no_own hmoves (by simp [hs])

theorem inquiries_of_nobody {moves : List (Move Outside Product)} (hmoves : ∀ a ∈ moves, IsOwn 0 a)
    (hs : s.flights = []) : inquiries p.call moves s = [] := by
  induction moves with
  | nil => rfl
  | cons a rest ih =>
    rw [List.forall_mem_cons] at hmoves
    rcases progress_of_own s hmoves.1 with ⟨f, hf, -⟩ | ⟨e, hasked⟩
    · rw [hs] at hf
      exact absurd hf List.not_mem_nil
    · rw [inquiries, hasked, e, List.nil_append]
      exact ih hmoves.2

/-- Who asks for what can be served gets it at once, and neither what can be seen nor what runs changes. -/
theorem call_of_visible (hp : p.hasRepository = true) (hu : Valid s.usage) {st : Stage} {x : Artifact Product}
    (hx : s.cache.visible? s.now k st = some x) :
    (p.call s k st).1 = .settled (.ok x) ∧ (p.call s k st).2.flights = s.flights ∧
      (p.call s k st).2.cache.visible? (p.call s k st).2.now k st = some x := by
  have hstage : x.stage = st := by
    obtain ⟨y, hy, rfl⟩ := Cache.slot?_of_visible? hx
    exact hu.staged k st y hy
  have hkept : (s.usage.step (.request k st)).cache.visible? s.now k st = some x :=
    (visible?_use hu rfl le_rfl k st).trans hx
  rw [Pipeline.call, if_pos hp]
  rcases enter_cases s k st (p.task k st) with ⟨y, hy, e⟩ | ⟨id, hnone, -, -⟩ | ⟨n, hnone, -, -, -, -⟩
  · obtain rfl : y = x := Option.some.inj (hy.symm.trans hx)
    rw [e, Artifact.ofStage_eq_ok hstage]
    exact ⟨rfl, rfl, hkept⟩
  · cases hnone.symm.trans hx
  · cases hnone.symm.trans hx

/-- Where nothing runs, a request that is not answered at once starts a computation. -/
theorem call_of_nobody (hp : p.hasRepository = true) (ht : Tracked H s) (hnobody : s.flights = []) {st : Stage}
    (hnone : s.cache.visible? s.now k st = none) :
    ∃ m : Computation, m.key = k ∧ m.stage = st ∧ ¬m.Overtaken (p.call s k st).2.cache ∧
      (p.call s k st).1 = .waiting m.id ∧ (p.call s k st).2.flights = [⟨m, .active (p.task k st)⟩] := by
  have hepoch := epoch_step_request s.usage k st k st
  rw [Pipeline.call, if_pos hp]
  rcases enter_cases s k st (p.task k st) with ⟨y, hy, -⟩ | ⟨id, -, hid, -⟩ | ⟨m, -, -, hm, -, e⟩
  · cases hnone.symm.trans hy
  · obtain ⟨m, hm, -⟩ := ht.manned _ (Cache.mem_of_registered? hid)
    rw [usage, hnobody] at hm
    exact absurd hm List.not_mem_nil
  · rw [e, hnobody]
    refine ⟨m, by rw [hm], by rw [hm], ?_, rfl, rfl⟩
    rw [Computation.Overtaken, hm, not_lt]
    exact hepoch.le

end Requests

/-- What comes of a request for transformed files is stored. A cache has come to be in any way, and no computation runs;
with a host, a request for transformed files is made, and nothing else is done until it is told that they are there,
whatever the collaborators answer. Then no computation runs again, these files are what the cache holds, and they are what
the next request gets, at once and without any question to a collaborator. -/
theorem stored_of_alone (p : Pipeline) (hp : p.hasRepository = true) (hlifetime : 0 < p.config.cacheTtlSeconds)
    (before : List (Move Outside Product)) (k : Key) (rest : List (Move Outside Product)) (hrest : ∀ a ∈ rest, IsOwn 0 a) :
    let s := (play p.call before (.start p.newCache)).2
    let s' := (play p.call rest (p.call s k .transform).2).2
    s.flights = [] → ∀ x, s'.told? .transform (p.call s k .transform).1 = some (.ok x) →
      s'.flights = [] ∧ (s'.cache.slot? k .transform).map Stored.artifact = some x ∧
        (p.call s' k .transform).1 = .settled (.ok x) ∧
        ∀ more : List (Move Outside Product), (∀ a ∈ more, IsOwn 0 a) →
          inquiries p.call more (p.call s' k .transform).2 = [] := by
  intro s s' hnobody x htold
  have hfresh : Tracked [] (.start p.newCache : Session Outside Product) := Tracked.start _ _
  have ht : Tracked _ s := hfresh.play p.lawful_call before
  have hcalled := ht.called (p.lawful_call s k .transform ht.valid)
  have ht' : Tracked _ s' := hcalled.play p.lawful_call rest
  suffices hend : s'.flights = [] ∧ s'.cache.visible? s'.now k .transform = some x by
    obtain ⟨hflights, hx⟩ := hend
    obtain ⟨hserved, hflights', -⟩ := call_of_visible hp ht'.valid hx
    obtain ⟨y, hy, rfl⟩ := Cache.slot?_of_visible? hx
    exact ⟨hflights, by rw [hy, Option.map_some], hserved,
      fun more hmore => inquiries_of_nobody hmore (hflights'.trans hflights)⟩
  rcases hvisible : s.cache.visible? s.now k .transform with _ | y
  · obtain ⟨m, hkey, hm, hcurrent, hticket, hflights⟩ := call_of_nobody hp ht hnobody hvisible
    have hlasts : (p.call s k .transform).2.cache.lifetime = p.newCache.lifetime := by
      have hwhole := (lasts_play hfresh p (before ++ [.ask k .transform])).2
      rwa [play_append] at hwhole
    have hlives : 0 < (p.call s k .transform).2.cache.lifetime := by
      rw [hlasts]
      exact Nat.mul_pos hlifetime (by decide)
    rw [hticket] at htold
    have hresult := result?_of_told htold
    rcases ((Alone.start p hkey hm hcurrent hflights).play hcalled hp hlives hm hrest).main with hruns | ⟨hflights', hx⟩
    · cases (ht'.result?_eq_none hruns).symm.trans hresult
    · exact ⟨hflights', hx x hresult⟩
  · obtain ⟨hticket, hflights, hkept⟩ := call_of_visible hp ht.valid hvisible
    rw [hticket, told?_settled] at htold
    obtain rfl := Except.ok.inj (Option.some.inj htold)
    have hs' : s' = (p.call s k .transform).2 :=
      congrArg Prod.snd (play_of_nobody hrest (hflights.trans hnobody))
    rw [hs']
    exact ⟨hflights.trans hnobody, hkept⟩

/-- An analysis was inserted, a plan was made from it, and the analysis is too old now. Files are transformed with a new
tree, a new analysis and a new plan. -/
theorem stored_of_alone_plan :
    let p : Pipeline := ⟨.default, true, false, false⟩
    let k : Key := ⟨"acme", "vaults"⟩
    let a : Analysis := analyze k 0 [] p.config.analysisOptions ⟨⟨0, 0⟩, 0⟩
    let before : List (Move Outside Product) := [.insert k (.analysis a), .wait 1000000, .ask k .plan, .go 0 emptyHost,
      .go 0 emptyHost, .go 0 emptyHost, .wait 1000000]
    let rest : List (Move Outside Product) := [.go 1 emptyHost, .go 2 emptyHost] ++ List.replicate 5 (.go 3 emptyHost) ++
      List.replicate 6 (.go 2 emptyHost) ++ List.replicate 2 (.go 1 emptyHost) ++ List.replicate 3 (.go 4 emptyHost) ++
      List.replicate 6 (.go 1 emptyHost)
    let s := (play p.call before (.start p.newCache)).2
    let s' := (play p.call rest (p.call s k .transform).2).2
    (s.cache.visible? s.now k .plan).isSome = true ∧ s.cache.visible? s.now k .analysis = none ∧
      ∃ x, s'.told? .transform (p.call s k .transform).1 = some (.ok x) ∧
        (s'.cache.slot? k .transform).map Stored.artifact = some x ∧ (p.call s' k .transform).1 = .settled (.ok x) := by
  intro p k a before rest s s'
  have hrest : ∀ a ∈ rest, IsOwn 0 a := by simp [rest, IsOwn]
  have hplan : (s.cache.visible? s.now k .plan).isSome = true := by decide +kernel
  have hanalysis : (s.cache.visible? s.now k .analysis).isNone = true := by decide +kernel
  have hnobody : s.flights.isEmpty = true := by decide +kernel
  have htold : (s'.told? .transform (p.call s k .transform).1).any (fun | .error _ => false | .ok _ => true) = true := by
    decide +kernel
  have h := stored_of_alone p rfl (by decide) before k rest hrest (List.isEmpty_iff.mp hnobody)
  have hs : s = (play p.call before (.start p.newCache)).2 := rfl
  have hs' : s' = (play p.call rest (p.call s k .transform).2).2 := rfl
  clear_value s' s
  rw [← hs, ← hs'] at h
  obtain ⟨x, hx⟩ : ∃ x, s'.told? .transform (p.call s k .transform).1 = some (.ok x) := by
    rcases hr : s'.told? .transform (p.call s k .transform).1 with _ | e | x <;> rw [hr] at htold
    · cases htold
    · cases htold
    · exact ⟨x, rfl⟩
  obtain ⟨-, hstored, hserved, -⟩ := h x hx
  exact ⟨hplan, Option.isNone_iff_eq_none.mp hanalysis, x, hx, hstored, hserved⟩

end Pipeline

end ContractMigration
