import ContractMigration.Proofs.Cache.Cold
import ContractMigration.Proofs.Pipeline.Demands
import ContractMigration.Proofs.Pipeline.Requests

/-! How a cache fills that was empty at first. As long as a session is about one repository, no computation fails, and less
time has passed than artifacts live, every computation has received only what is held, so what it ends with is stored, and
nothing that is held ever goes away. Whoever asks for a stage is told what is held for it, or waits for a computation that
runs. -/

namespace ContractMigration

open Session Usage

/-! ### What a stage builds on -/

/-- Each stage before it is one of those that it is made from, or is before one of them. -/
theorem DerivedBy.reaches {k : Key} {st : Stage} {reads : List (Read Product)} {sources : List (Artifact Product)}
    (h : DerivedBy k st reads sources) {t : Stage} (ht : t.rank < st.rank) : ∃ a ∈ sources, t.rank ≤ a.stage.rank := by
  cases h with
  | tree => exact absurd ht (Nat.not_lt_zero _)
  | analysis a ha => exact ⟨a, List.mem_cons_self, ha ▸ Nat.lt_succ_iff.mp ht⟩
  | plan a ha => exact ⟨a, List.mem_cons_self, ha ▸ Nat.lt_succ_iff.mp ht⟩
  | transform a b t' ha hb =>
    exact ⟨b, List.mem_cons_of_mem _ List.mem_cons_self, hb ▸ Nat.lt_succ_iff.mp ht⟩

namespace Pipeline

/-- A computation of a stage has received only what is held, and it waits for stages of the repository only. -/
structure Builds (k : Key) (c : Cache Product) (st : Stage) (pos : Position Outside Product) : Prop where
  meets : ∃ reads, (∀ x, .received (.ok x) ∈ reads → c.Holds k x) ∧ pos.Meets (Derives k st) reads
  relies : pos.Relies (OnlyFails fun _ => True) (fun j t => j = k ∧ t ∈ st.needs) (OnlyFails fun _ => True)

namespace Builds

variable {k : Key} {c c' : Cache Product} {st : Stage}

theorem start (p : Pipeline) (k : Key) (c : Cache Product) (st : Stage) : Builds k c st (.active (p.task k st)) where
  meets := ⟨[], fun _ h => absurd h List.not_mem_nil, p.derives_task k st⟩
  relies := p.relies_task (fun _ _ => trivial) k st fun _ _ => trivial

theorem keeps {pos : Position Outside Product} (h : Builds k c st pos) (hc : Cache.KeepsAll k c c') :
    Builds k c' st pos := by
  obtain ⟨reads, hheld, hmeets⟩ := h.meets
  exact ⟨⟨reads, fun x hx => hc.holds (hheld x hx), hmeets⟩, h.relies⟩

theorem goes {pos pos' : Position Outside Product} {qs : List Question} (h : Builds k c st pos) (hg : pos.Goes pos' qs) :
    Builds k c st pos' := by
  obtain ⟨reads, hheld, hmeets⟩ := h.meets
  exact ⟨⟨reads, hheld, hg.meets hmeets⟩, hg.relies h.relies⟩

/-- What is received next is held, too. -/
theorem holds_received {reads : List (Read Product)} (hheld : ∀ x, .received (.ok x) ∈ reads → c.Holds k x)
    {r : Except Failure (Artifact Product)} (hr : ∀ x, r = .ok x → c.Holds k x) :
    ∀ x, .received (.ok x) ∈ reads ++ [.received r] → c.Holds k x := by
  intro x hx
  rcases List.mem_append.mp hx with hx | hx
  · exact hheld x hx
  · exact hr x (Read.received.inj (List.mem_singleton.mp hx)).symm

theorem served {j : Key} {t : Stage} {next : Except Failure (Artifact Product) → Routine Outside Product (Made Product)}
    (h : Builds k c st (.active (.await j t next))) {x : Artifact Product} (hst : x.stage = t) (hx : c.Holds k x) :
    Builds k c st (.active (next (.ok x))) := by
  obtain ⟨reads, hheld, hmeets⟩ := h.meets
  have hsame : Except.bind (.ok x) (Artifact.ofStage t) = .ok x := Artifact.ofStage_eq_ok hst
  have hnext := hmeets (.ok x)
  have hrelies := h.relies.2 (.ok x) fun _ _ => trivial
  rw [hsame] at hnext hrelies
  refine ⟨⟨_, holds_received hheld ?_, hnext⟩, hrelies⟩
  rintro _ ⟨⟩
  exact hx

theorem waits {j : Key} {t : Stage} {next : Except Failure (Artifact Product) → Routine Outside Product (Made Product)}
    (h : Builds k c st (.active (.await j t next))) (other : ℕ) :
    Builds k c st (.joined other fun r => next (r.bind (Artifact.ofStage t))) :=
  ⟨h.meets, fun r _ => h.relies.2 r fun _ _ => trivial⟩

theorem told {other : ℕ} {next : Except Failure (Artifact Product) → Routine Outside Product (Made Product)}
    (h : Builds k c st (.joined other next)) {r : Except Failure (Artifact Product)}
    (hr : ∀ x, r = .ok x → c.Holds k x) : Builds k c st (.active (next r)) := by
  obtain ⟨reads, hheld, hmeets⟩ := h.meets
  exact ⟨⟨_, holds_received hheld hr, hmeets r⟩, h.relies r fun _ _ => trivial⟩

theorem looked {j : Key} {t : Stage} {next : Option (Artifact Product) → Routine Outside Product (Made Product)}
    (h : Builds k c st (.active (.peek j t next))) (a : Option (Artifact Product)) :
    Builds k c st (.active (next a)) := by
  obtain ⟨reads, hheld, hmeets⟩ := h.meets
  refine ⟨⟨_, fun x hx => hheld x ?_, hmeets a⟩, h.relies a⟩
  simpa using hx

/-- What it ends with is made from what is held. -/
theorem made {v : Product} {sources : List (Artifact Product)} (h : Builds k c st (.active (.done (.ok (v, sources))))) :
    Staged.stage v = st ∧ (∀ a ∈ sources, c.Holds k a) ∧
      ∀ t : Stage, t.rank < st.rank → ∃ a ∈ sources, t.rank ≤ a.stage.rank := by
  obtain ⟨reads, hheld, hmeets⟩ := h.meets
  obtain ⟨staged, hderived⟩ := hmeets (v, sources) rfl
  exact ⟨staged, fun a ha => hheld a (hderived.received a ha), fun _ ht => hderived.reaches ht⟩

end Builds

/-- Nothing but what callers do who ask for stages of one repository, and look. -/
def OnlyFor (k : Key) : Move Outside Product → Prop
  | .ask j _ => j = k
  | .insert _ _ | .invalidate _ _ | .clear => False
  | _ => True

/-! ### What is held -/

/-- What is known of a session whose cache was empty at first, where `H` is what is told of it: everything that a
computation has ended with is held, and nothing else is worked with. -/
structure Warming (k : Key) (H : List (Session.Event Product)) (s : Session Outside Product) : Prop where
  cold : Cold k s.usage
  kept : ∀ m x, .ended m (.ok x) ∈ H → s.cache.Holds k x
  flights : ∀ f ∈ s.flights, Builds k s.cache f.computation.stage f.position

namespace Warming

variable {p : Pipeline} {k : Key} {H : List (Session.Event Product)} {s s' : Session Outside Product}

theorem start {lifetime : ℕ} (h : 0 < lifetime) (capacity : ℕ) (k : Key) :
    Warming k [] (.start (.empty lifetime capacity)) where
  cold := Cold.start h capacity k
  kept := fun _ _ h => nomatch h
  flights := fun _ h => nomatch h

theorem visible?_eq (hs : Warming k H s) (st : Stage) :
    s.cache.visible? s.now k st = (s.cache.slot? k st).map Stored.artifact := hs.cold.visible?_eq st

/-- What is held can be seen, and so can something for the stages before it. -/
theorem visible?_of_holds (hs : Warming k H s) {x : Artifact Product} (hx : s.cache.Holds k x) :
    s.cache.visible? s.now k x.stage = some x ∧
      ∀ t : Stage, t.rank ≤ x.stage.rank → s.cache.visible? s.now k t ≠ none := by
  obtain ⟨y, hy, rfl⟩ := hx
  refine ⟨by rw [hs.visible?_eq, hy, Option.map_some], fun t ht => ?_⟩
  rw [hs.visible?_eq, ne_eq, Option.map_eq_none_iff]
  exact hs.cold.closed _ t ht (by rw [usage, hy]; exact Option.some_ne_none y)

/-- No two computations are for the same stage. -/
theorem nodup_stages (hs : Warming k H s) (ht : Tracked H s) : (s.flights.map fun f => f.computation.stage).Nodup := by
  have hstages : (s.usage.running.map Computation.stage).Nodup :=
    ht.valid.ids.of_map.map_on fun m hm m' hm' hst => hs.cold.eq_of_stage ht.valid hm hm' hst
  rwa [usage, List.map_map] at hstages

theorem enter (hs : Warming k H s) (p : Pipeline) (st : Stage) : Warming k H (s.enter k st (p.task k st)).2 ∧
    ∀ t, (s.enter k st (p.task k st)).2.cache.slot? k t = s.cache.slot? k t := by
  have hu := usage_enter s k st (p.task k st)
  have hcache : (s.enter k st (p.task k st)).2.cache = (s.usage.step (.request k st)).cache := congrArg Usage.cache hu
  obtain ⟨hcold, hslot⟩ := hs.cold.request st
  rw [← hcache] at hslot
  refine ⟨⟨hu ▸ hcold, fun m x hx => (Cache.KeepsAll.of_eq hslot).holds (hs.kept m x hx), fun f hf => ?_⟩, hslot⟩
  rcases mem_flights_enter.mp hf with hold | ⟨hstart, hpos⟩
  · exact (hs.flights f hold).keeps (.of_eq hslot)
  · rw [hpos, (eq_of_start hstart).2.2]
    exact .start p k _ st

/-- With a host, whoever asks for a stage asks the cache. -/
theorem call (hs : Warming k H s) (ht : Tracked H s) (hp : p.hasRepository = true) {st : Stage} {t : Ticket Product}
    (hc : p.call s k st = (t, s')) : Warming k H s' ∧ Tracked H s' ∧ Cache.KeepsAll k s.cache s'.cache ∧
      ∀ f ∈ s.flights, f ∈ s'.flights := by
  have hlawful := p.lawful_call s k st ht.valid
  have htracked := ht.called hlawful
  have hflights := hlawful.flights
  obtain ⟨hentered, hslot⟩ := hs.enter p st
  rw [hc] at htracked hflights
  rw [Pipeline.call, if_pos hp] at hc
  rw [hc] at hentered hslot
  exact ⟨hentered, htracked, .of_eq hslot, hflights⟩

/-- Who is answered at once gets what is held. -/
theorem holds_of_settled (ht : Tracked H s) (hp : p.hasRepository = true) {st : Stage}
    {r : Except Failure (Artifact Product)} (hr : (p.call s k st).1 = .settled r) :
    ∃ x, r = .ok x ∧ x.stage = st ∧ s.cache.Holds k x := by
  rw [Pipeline.call, if_pos hp] at hr
  rcases enter_cases s k st (p.task k st) with ⟨x, hx, e⟩ | ⟨id, -, -, e⟩ | ⟨m, -, -, -, -, e⟩ <;> rw [e] at hr
  · obtain ⟨y, hy, rfl⟩ := Cache.slot?_of_visible? hx
    have hstage : y.artifact.stage = st := ht.valid.staged k st y hy
    rw [Artifact.ofStage_eq_ok hstage] at hr
    exact ⟨y.artifact, (Ticket.settled.inj hr).symm, hstage, y, hstage ▸ hy, rfl⟩
  · cases hr
  · cases hr

theorem place (hs : Warming k H s) (ht : Tracked H s) {f : Flight Outside Product} (hf : f ∈ s.flights)
    {pos : Position Outside Product} (hpos : Builds k s.cache f.computation.stage pos) :
    Warming k H (s.place f.computation.id pos) := by
  refine ⟨usage_place s _ pos ▸ hs.cold, hs.kept, fun f' hf' => ?_⟩
  rcases flights_place_cases ht.valid.ids hf hf' with rfl | ⟨hold, -⟩
  · exact hpos
  · exact hs.flights f' hold

/-- A computation that has read something has not ended. -/
theorem read (hs : Warming k H s) (id : ℕ) (r : Read Product) : Warming k (H ++ [.read id r]) s :=
  ⟨hs.cold, fun m x hx => hs.kept m x (by simpa using hx), hs.flights⟩

/-- A look finds everything young enough. -/
theorem expire_eq (hs : Warming k H s) (j : Key) (st : Stage) : s.cache.expire s.now j st = s.cache :=
  Cache.expire_of_young hs.cold.young j st

theorem peek_eq (hs : Warming k H s) (j : Key) (st : Stage) : (s.peek j st).2 = s := by
  rw [Session.peek, Cache.peek, hs.expire_eq]

theorem land (hs : Warming k H s) (ht : Tracked H s) {f : Flight Outside Product} (hf : f ∈ s.flights)
    {r : Made Product} (hpos : f.position = .active (.done r))
    (hok : ∀ e, (s.cache.complete s.now f.computation r).1 ≠ .error e) :
    Warming k (H ++ [.ended f.computation (s.cache.complete s.now f.computation r).1]) (s.land f.computation r) ∧
      Cache.KeepsAll k s.cache (s.land f.computation r).cache := by
  have hbuilds := hs.flights f hf
  rw [hpos] at hbuilds
  cases r with
  | error e => exact absurd rfl (hok e)
  | ok x =>
    obtain ⟨v, sources⟩ := x
    obtain ⟨staged, hheld, hreach⟩ := hbuilds.made
    have hu := usage_land ht.valid.ids hf (.value v sources staged)
    have hcache : (s.land f.computation (.ok (v, sources))).cache = _ := congrArg Usage.cache hu
    obtain ⟨hcold, hkeeps, hnew⟩ := hs.cold.finish ht.valid (mem_running hf) staged hheld fun t hrank => by
      obtain ⟨a, ha, hle⟩ := hreach t hrank
      obtain ⟨y, hy, -⟩ := hheld a ha
      exact hs.cold.closed a.stage t hle (by rw [usage, hy]; exact Option.some_ne_none y)
    rw [← hcache] at hkeeps hnew
    refine ⟨⟨hu ▸ hcold, fun m x hx => ?_, fun g hg => ?_⟩, hkeeps⟩
    · rcases List.mem_append.mp hx with hx | hx
      · exact hkeeps.holds (hs.kept m x hx)
      · obtain ⟨-, hx⟩ := Session.Event.ended.inj (List.mem_singleton.mp hx)
        rw [Except.ok.inj hx]
        exact hnew
    · exact (hs.flights g (List.mem_of_mem_filter hg)).keeps hkeeps

theorem progress (hs : Warming k H s) (ht : Tracked H s) (hp : p.hasRepository = true) {f : Flight Outside Product}
    (hf : f ∈ s.flights) {E : List (Session.Event Product)} {qs : List Outside.Query} (h : Progress p.call s f E qs s')
    (hok : ∀ m e, .ended m (.error e) ∉ E) : Warming k (H ++ E) s' ∧ Cache.KeepsAll k s.cache s'.cache := by
  have hbuilds := hs.flights f hf
  have hsame : Cache.KeepsAll k s.cache s.cache := fun _ _ hx => hx
  cases h with
  | stays => exact ⟨by rwa [List.append_nil], hsame⟩
  | ends r hpos => exact hs.land ht hf hpos fun e he => hok f.computation e (List.mem_singleton.mpr (by rw [he]))
  | goesOn pos qs h =>
    rw [List.append_nil]
    exact ⟨hs.place ht hf (hbuilds.goes h), hsame⟩
  | isServed j st next hpos r s₁ hc =>
    rw [hpos] at hbuilds
    obtain rfl : j = k := hbuilds.relies.1.1
    obtain ⟨x, rfl, hstage, hx⟩ := holds_of_settled ht hp (congrArg Prod.fst hc)
    obtain ⟨hs₁, ht₁, hkeeps, hfl⟩ := hs.call ht hp hc
    exact ⟨(hs₁.place ht₁ (hfl f hf) ((hbuilds.keeps hkeeps).served hstage (hkeeps.holds hx))).read _ _, hkeeps⟩
  | waits j st next hpos other s₁ hc =>
    rw [hpos] at hbuilds
    obtain rfl : j = k := hbuilds.relies.1.1
    obtain ⟨hs₁, ht₁, hkeeps, hfl⟩ := hs.call ht hp hc
    rw [List.append_nil]
    exact ⟨hs₁.place ht₁ (hfl f hf) ((hbuilds.keeps hkeeps).waits other), hkeeps⟩
  | looks j st next hpos =>
    rw [hpos] at hbuilds
    rw [hs.peek_eq]
    exact ⟨(hs.place ht hf (hbuilds.looked _)).read _ _, hsame⟩
  | isTold other next hpos r hr =>
    rw [hpos] at hbuilds
    obtain ⟨m, -, hended⟩ := ht.results other r hr
    refine ⟨(hs.place ht hf (hbuilds.told ?_)).read _ _, hsame⟩
    rintro x rfl
    exact hs.kept m x hended

theorem moved (hs : Warming k H s) (ht : Tracked H s) (hp : p.hasRepository = true) {a : Move Outside Product}
    (ha : OnlyFor k a) (hok : ∀ m e, .ended m (.error e) ∉ (s.moved p.call a).1)
    (hyoung : (s.moved p.call a).2.now < s.cache.lifetime) :
    Warming k (H ++ (s.moved p.call a).1) (s.moved p.call a).2 ∧
      Cache.KeepsAll k s.cache (s.moved p.call a).2.cache := by
  have hquiet : Warming k (H ++ []) s ∧ Cache.KeepsAll k s.cache s.cache :=
    ⟨by rwa [List.append_nil], fun _ _ hx => hx⟩
  cases a with
  | ask j st =>
    obtain rfl : j = k := ha
    obtain ⟨hcalled, -, hkeeps, -⟩ := hs.call ht hp (rfl : p.call s j st = (_, _))
    exact ⟨by rwa [Session.moved, List.append_nil], hkeeps⟩
  | go id answer =>
    rcases progress_go p.call s id answer with ⟨f, hf, -, h⟩ | ⟨e, -⟩
    · exact hs.progress ht hp hf h hok
    · rwa [e]
  | insert j v => exact ha.elim
  | invalidate j st => exact ha.elim
  | clear => exact ha.elim
  | peek j st => rwa [Session.moved, hs.peek_eq]
  | contains j st => rwa [Session.moved, Cache.contains, hs.expire_eq]
  | wait time =>
    obtain ⟨hs', hkeeps⟩ := hquiet
    exact ⟨⟨hs'.cold.wait hyoung, hs'.kept, hs'.flights⟩, hkeeps⟩
  | attend callers rung round =>
    obtain ⟨hs', hkeeps⟩ := hquiet
    exact ⟨⟨hs'.cold, hs'.kept, hs'.flights⟩, hkeeps⟩

end Warming

/-! ### Whole sessions -/

variable {p : Pipeline} {k : Key} {H : List (Session.Event Product)} {s : Session Outside Product}

/-- While some moves are made no computation fails, and they are over before an artifact could be too old. -/
structure Smooth (p : Pipeline) (moves : List (Move Outside Product)) (s : Session Outside Product) : Prop where
  fine : ∀ m e, .ended m (.error e) ∉ (play p.call moves s).1
  young : (play p.call moves s).2.now < s.cache.lifetime

/-- Time passes, and nobody changes how long artifacts live. -/
theorem lasts_play (ht : Tracked H s) (p : Pipeline) (moves : List (Move Outside Product)) :
    s.now ≤ (play p.call moves s).2.now ∧ (play p.call moves s).2.cache.lifetime = s.cache.lifetime := by
  obtain ⟨acts, hacts⟩ := ht.exists_run_play p.lawful_call moves
  have hnow : (play p.call moves s).2.now = (run acts s.usage).now := congrArg Usage.now hacts
  have hcache : (play p.call moves s).2.cache = (run acts s.usage).cache := congrArg Usage.cache hacts
  rw [hnow, hcache]
  exact ⟨now_le_run acts s.usage, (advances_run acts s.usage).lifetime⟩

/-- What goes smoothly does so in every part. -/
theorem Smooth.append {before after : List (Move Outside Product)} (h : Smooth p (before ++ after) s) (ht : Tracked H s) :
    Smooth p before s ∧ Smooth p after (play p.call before s).2 := by
  obtain ⟨hfine, hyoung⟩ := h
  rw [play_append] at hfine hyoung
  obtain ⟨hnow, -⟩ := lasts_play (ht.play p.lawful_call before) p after
  obtain ⟨-, hlifetime⟩ := lasts_play ht p before
  exact ⟨⟨fun m e he => hfine m e (List.mem_append_left _ he), hnow.trans_lt hyoung⟩,
    fun m e he => hfine m e (List.mem_append_right _ he), hlifetime.symm ▸ hyoung⟩

theorem Smooth.cons {a : Move Outside Product} {rest : List (Move Outside Product)} (h : Smooth p (a :: rest) s)
    (ht : Tracked H s) : (∀ m e, .ended m (.error e) ∉ (s.moved p.call a).1) ∧
      (s.moved p.call a).2.now < s.cache.lifetime ∧ Smooth p rest (s.moved p.call a).2 := by
  have hsplit : Smooth p ([a] ++ rest) s := h
  obtain ⟨hfirst, hrest⟩ := hsplit.append ht
  exact ⟨fun m e he => hfirst.fine m e (List.mem_append_left _ he), hfirst.young, hrest⟩

/-- What is known before some moves is known after them. -/
theorem Warming.play (hw : Warming k H s) (ht : Tracked H s) (hp : p.hasRepository = true)
    {moves : List (Move Outside Product)} (hmoves : ∀ a ∈ moves, OnlyFor k a) (h : Smooth p moves s) :
    Warming k (H ++ (Session.play p.call moves s).1) (Session.play p.call moves s).2 ∧
      Cache.KeepsAll k s.cache (Session.play p.call moves s).2.cache := by
  induction moves generalizing H s with
  | nil => exact ⟨by rwa [Session.play, List.append_nil], fun _ _ hx => hx⟩
  | cons a rest ih =>
    rw [List.forall_mem_cons] at hmoves
    obtain ⟨hfine, hyoung, hrest⟩ := h.cons ht
    obtain ⟨hmoved, hkeeps⟩ := hw.moved ht hp hmoves.1 hfine hyoung
    obtain ⟨hplay, hkeeps'⟩ := ih hmoved (ht.moved p.lawful_call a) hmoves.2 hrest
    rw [Session.play, ← List.append_assoc]
    exact ⟨hplay, fun t x hx => hkeeps' t x (hkeeps t x hx)⟩

/-- Someone who has asked for a stage is told what is held for it, or waits for a computation that runs. -/
theorem Warming.told_or_waits (hw : Warming k H s) (ht : Tracked H s) (hp : p.hasRepository = true) {st : Stage}
    {after : List (Move Outside Product)} (hafter : ∀ a ∈ after, OnlyFor k a) (h : Smooth p (.ask k st :: after) s) :
    let s' := (Session.play p.call (.ask k st :: after) s).2
    (∃ x, s'.told? st (p.call s k st).1 = some (.ok x) ∧ x.stage = st ∧ s'.cache.Holds k x) ∨
    s'.told? st (p.call s k st).1 = none ∧ ∃ f ∈ s'.flights,
      (p.call s k st).1 = .waiting f.computation.id ∧ f.computation.key = k ∧ f.computation.stage = st := by
  intro s'
  have hmoves : ∀ a ∈ Move.ask k st :: after, OnlyFor k a := List.forall_mem_cons.mpr ⟨rfl, hafter⟩
  obtain ⟨hwarm, hkeeps⟩ := hw.play ht hp hmoves h
  have hwhole := ht.play p.lawful_call (.ask k st :: after)
  rcases hticket : (p.call s k st).1 with r | id
  · obtain ⟨x, rfl, hst, hx⟩ := holds_of_settled ht hp hticket
    exact .inl ⟨x, told?_settled _ st _, hst, hkeeps.holds hx⟩
  · obtain ⟨m, rfl, hkey, rfl, hm, -⟩ := exists_of_waiting p.lawful_call ht hticket
    rw [told?_waiting]
    -- the computation that was joined or started goes on, or it has ended and its result is what is told
    have hlater : m ∈ s'.usage.running ∨ ∃ r, .ended m r ∈ (Session.play p.call (.ask k m.stage :: after) s).1 :=
      ((ht.moved p.lawful_call (.ask k m.stage)).running_play p.lawful_call after hm).imp_right
        fun ⟨r, hr⟩ => ⟨r, List.mem_append_right _ hr⟩
    rcases hlater with hrunning | ⟨r, hended⟩
    · rw [hwhole.result?_eq_none hrunning]
      obtain ⟨f, hf, rfl⟩ := List.mem_map.mp hrunning
      exact .inr ⟨rfl, f, hf, rfl, hkey, rfl⟩
    · have htold := List.mem_append_right H hended
      rw [(hwhole.result?_iff (.inr ⟨r, htold⟩)).mpr htold]
      cases r with
      | error e => exact absurd hended (h.fine m e)
      | ok x =>
        have hst := hwhole.staged m x htold
        exact .inl ⟨x, congrArg some (Artifact.ofStage_eq_ok hst), hst, hwarm.kept m x htold⟩

end Pipeline

end ContractMigration
