import ContractMigration.Proofs.Pipeline.Effects
import ContractMigration.Proofs.Session.Progress

/-! Transformed files are of one generation. Each move of a session is made up of things done with the cache and of
computations that start, move on or end, so what is known of a session holds in every session; and with it, that stored
transformed files come from one analysis and one tree. -/

namespace ContractMigration.Pipeline

open Session Usage

/-! ### Requests -/

/-- The answer on a ticket is of the stage that was asked for, and came to be in what has happened. -/
def Settles (h : List (Usage.Event Product)) (st : Stage) (t : Ticket Product) : Prop :=
  ∀ r, t = .settled r → r.bind (Artifact.ofStage st) = r ∧ ∀ a, r = .ok a → Arisen h a

theorem settles_ok {h : List (Usage.Event Product)} {st : Stage} {x : Artifact Product} (hst : x.ofStage st = .ok x)
    (hx : Arisen h x) : Settles h st (.settled (.ok x)) := by
  rintro _ ⟨⟩
  refine ⟨hst, ?_⟩
  rintro _ ⟨⟩
  exact hx

theorem settles_error (h : List (Usage.Event Product)) (st : Stage) (e : Failure) :
    Settles h st (.settled (.error e)) := by
  rintro _ ⟨⟩
  exact ⟨rfl, nofun⟩

theorem settles_waiting (h : List (Usage.Event Product)) (st : Stage) (id : ℕ) : Settles h st (.waiting id) := nofun

namespace Sound

variable {h : List (Usage.Event Product)} {H : List (Session.Event Product)} {s s' : Session Outside Product}

/-- Something is done with the cache that is not told. -/
theorem use (hs : Sound h H s) {a : Action Product} (ha : a.isFinish = false) (hu : s'.usage = s.usage.step a)
    (hr : s'.results = s.results) (hf : s'.flights = s.flights) (htold : told (s.usage.events a) = []) :
    Sound (h ++ s.usage.events a) H s' := by
  have hact := hs.act ha hu hr fun f hfl => .inl (hf ▸ hfl)
  rwa [htold, List.append_nil] at hact

theorem ofStage_of_visible (hs : Sound h H s) {k : Key} {st : Stage} {x : Artifact Product}
    (hx : s.cache.visible? s.now k st = some x) : x.ofStage st = .ok x ∧ Arisen h x := by
  obtain ⟨y, hy, rfl⟩ := Cache.slot?_of_visible? hx
  exact ⟨if_pos (hs.valid.staged k st y hy), Arisen.of_slot hs.explained hy⟩

/-- Someone asks for a stage, and `r` is started if nothing is there and nothing can be joined. -/
theorem enter (hs : Sound h H s) (k : Key) (st : Stage) {r : Routine Outside Product (Made Product)}
    (hr : r.Meets (Derives k st) []) :
    ∃ h', Sound h' H (s.enter k st r).2 ∧ (∀ f ∈ s.flights, f ∈ (s.enter k st r).2.flights) ∧
      Settles h' st (s.enter k st r).1 := by
  have hstep : s.usage.step (.request k st) = ⟨(s.cache.request s.now k st).2,
      s.usage.running ++ (s.cache.request s.now k st).1.started, s.now⟩ := step_request s.usage k st
  rcases Cache.request_cases s.cache s.now k st with ⟨x, hx, e⟩ | ⟨id, -, -, e⟩ | ⟨-, -, e⟩
  · obtain ⟨hstage, hx⟩ := hs.ofStage_of_visible hx
    have henter : s.enter k st r = (.settled (x.ofStage st), { s with cache := (s.cache.request s.now k st).2 }) := by
      rw [Session.enter, e]
    rw [henter]
    refine ⟨_, hs.use (a := .request k st) rfl ?_ rfl rfl rfl, fun _ hf => hf, ?_⟩
    · rw [hstep, e]
      exact congrArg (fun l => (⟨_, l, s.now⟩ : Usage Product)) (List.append_nil _).symm
    · rw [hstage]
      exact settles_ok hstage (hx.mono (List.subset_append_left _ _))
  · have henter : s.enter k st r = (.waiting id, { s with cache := (s.cache.request s.now k st).2 }) := by
      rw [Session.enter, e]
    rw [henter]
    refine ⟨_, hs.use (a := .request k st) rfl ?_ rfl rfl rfl, fun _ hf => hf, settles_waiting _ st id⟩
    rw [hstep, e]
    exact congrArg (fun l => (⟨_, l, s.now⟩ : Usage Product)) (List.append_nil _).symm
  · set m : Computation := ⟨s.cache.nextComputation, k, st, s.cache.epoch k st⟩
    set s₁ : Session Outside Product :=
      { s with cache := (s.cache.request s.now k st).2, flights := s.flights ++ [⟨m, .active r⟩] }
    have henter : s.enter k st r = (.waiting m.id, s₁) := by simp only [s₁, Session.enter, e]
    have hasked : .requested k st (.start m) ∈ s.usage.events (.request k st) :=
      List.mem_singleton.mpr (congrArg (Usage.Event.requested k st) (congrArg Prod.fst e).symm)
    have hu : s₁.usage = s.usage.step (.request k st) := by
      rw [hstep, e]
      simp [s₁, e, Session.usage, Request.started]
    have hact := hs.act (a := .request k st) rfl hu rfl fun f hf => by
      rcases List.mem_append.mp hf with hf | hf
      · exact .inl hf
      · rw [List.mem_singleton.mp hf]
        exact .inr ⟨hasked, hr⟩
    rw [henter]
    exact ⟨_, by simpa [told, events] using hact, fun _ hf => List.mem_append_left _ hf,
      settles_waiting _ st m.id⟩

theorem peek (hs : Sound h H s) (k : Key) (st : Stage) :
    Sound (h ++ s.usage.events (.peek k st)) H (s.peek k st).2 := hs.use rfl rfl rfl rfl rfl

theorem anyCached (hs : Sound h H s) (k : Key) (stages : List Stage) :
    ∃ h', Sound h' H { s with cache := (anyCached s.cache s.now k stages).2 } := by
  induction stages generalizing h s with
  | nil => exact ⟨h, hs⟩
  | cons st rest ih =>
    have hnext : Sound (h ++ s.usage.events (.contains k st)) H
        { s with cache := (s.cache.contains s.now k st).2 } := hs.use rfl rfl rfl rfl rfl
    rw [Pipeline.anyCached]
    rcases hc : s.cache.contains s.now k st with ⟨found, c⟩
    rw [hc] at hnext
    dsimp only
    split_ifs
    · exact ⟨_, hnext⟩
    · exact ih hnext

theorem call (hs : Sound h H s) (p : Pipeline) (k : Key) (st : Stage) :
    ∃ h', Sound h' H (p.call s k st).2 ∧ (∀ f ∈ s.flights, f ∈ (p.call s k st).2.flights) ∧
      Settles h' st (p.call s k st).1 := by
  rw [Pipeline.call]
  split_ifs with hrep hst
  · exact hs.enter k st (p.derives_task k st)
  · subst hst
    have hpeek := hs.peek k .tree
    rcases hx : s.cache.visible? s.now k .tree with _ | x
    · have hnone : s.peek k .tree = (none, { s with cache := s.cache.expire s.now k .tree }) := by
        rw [Session.peek, Cache.peek, hx]
      rw [hnone] at hpeek ⊢
      exact ⟨_, hpeek, fun _ hf => hf, settles_error _ .tree _⟩
    · have hsome : s.peek k .tree = (some x, { s with cache := s.cache.expire s.now k .tree }) := by
        rw [Session.peek, Cache.peek, hx]
      obtain ⟨hstage, harisen⟩ := hs.ofStage_of_visible hx
      rw [hsome] at hpeek ⊢
      exact ⟨_, hpeek, fun _ hf => hf, settles_ok hstage (harisen.mono (List.subset_append_left _ _))⟩
  · obtain ⟨h', hany⟩ := hs.anyCached k st.upToHere
    dsimp only
    split_ifs
    · exact hany.enter k st (p.derives_task k st)
    · exact ⟨h', hany, fun _ hf => hf, settles_error h' st _⟩

/-! ### Moves -/

theorem arisen_of_result (hs : Sound h H s) {id : ℕ} {r : Except Failure (Artifact Product)}
    (hr : s.result? id = some r) {x : Artifact Product} (hx : x ∈ (Read.received r).artifacts) : Arisen h x := by
  obtain rfl := Read.mem_artifacts_received.mp hx
  obtain ⟨l, l', hl, -⟩ := List.lookup_eq_some_iff.mp hr
  exact hs.results id x (hl ▸ List.mem_append_right _ List.mem_cons_self)

/-- A computation is taken further. -/
theorem progress (hs : Sound h H s) (p : Pipeline) {f : Flight Outside Product} (hf : f ∈ s.flights)
    {E : List (Session.Event Product)} {qs : List Outside.Query} (hprogress : Progress p.call s f E qs s') :
    ∃ h', Sound h' (H ++ E) s' := by
  have hmeets := hs.flights f hf
  cases hprogress with
  | stays => exact ⟨h, by rwa [List.append_nil]⟩
  | ends r hpos =>
    rw [hpos] at hmeets
    cases r with
    | error e => exact ⟨_, hs.land hf (y := .failure e) fun _ h => nomatch h⟩
    | ok x =>
      have hx := hmeets x rfl
      exact ⟨_, hs.land hf (y := .value x.1 x.2 hx.1) fun x' e => Except.ok.inj e ▸ hx.2⟩
  | goesOn pos qs hgo => exact ⟨h, by rw [List.append_nil]; exact hs.place hf (hgo.meets hmeets)⟩
  | isServed k st next hpos r s₁ hc =>
    obtain ⟨h', hcall, hkept, hsettles⟩ := hs.call p k st
    rw [hc] at hcall hkept hsettles
    obtain ⟨hbind, harisen⟩ := hsettles r rfl
    rw [hpos] at hmeets
    have hnext := hmeets r
    rw [hbind] at hnext
    exact ⟨h', hcall.placeRead (hkept f hf) hnext (fun x hx => harisen x (Read.mem_artifacts_received.mp hx))
      fun _ _ h => nomatch h⟩
  | waits k st next hpos other s₁ hc =>
    obtain ⟨h', hcall, hkept, -⟩ := hs.call p k st
    rw [hc] at hcall hkept
    rw [hpos] at hmeets
    exact ⟨h', by rw [List.append_nil]; exact hcall.place (hkept f hf) hmeets⟩
  | looks k st next hpos =>
    have hvisible : (s.peek k st).1 = s.cache.visible? s.now k st := rfl
    rw [hpos] at hmeets
    refine ⟨_, (hs.peek k st).placeRead hf (hmeets _) (fun x hx => ?_) fun j i hi => ?_⟩
    · rw [Read.mem_artifacts_looked, hvisible] at hx
      exact (hs.ofStage_of_visible hx).2.mono (List.subset_append_left _ _)
    · obtain ⟨rfl, rfl, hi⟩ := Read.looked.inj hi
      exact Cache.slot?_expire_of_visible? (hvisible.symm.trans hi)
  | isTold other next hpos r hr =>
    rw [hpos] at hmeets
    exact ⟨h, hs.placeRead hf (hmeets r) (fun x hx => hs.arisen_of_result hr hx) fun _ _ h => nomatch h⟩

/-- A move is made. -/
theorem moved (hs : Sound h H s) (p : Pipeline) (a : Move Outside Product) :
    ∃ h', Sound h' (H ++ (s.moved p.call a).1) (s.moved p.call a).2 := by
  have hquiet : ∀ {h' s'}, Sound h' H s' → ∃ h', Sound h' (H ++ []) s' :=
    fun hs' => ⟨_, by rw [List.append_nil]; exact hs'⟩
  cases a with
  | ask k st =>
    obtain ⟨h', hcall, -⟩ := hs.call p k st
    exact hquiet hcall
  | go id answer =>
    rcases progress_go p.call s id answer with ⟨f, hf, -, hprogress⟩ | ⟨e, -⟩
    · exact hs.progress p hf hprogress
    · rw [e]
      exact hquiet hs
  | insert k v => exact ⟨_, hs.act (a := .insert k v) rfl rfl rfl fun _ hf => .inl hf⟩
  | invalidate k st => exact hquiet (hs.use (a := .invalidate k st) rfl rfl rfl rfl rfl)
  | clear => exact hquiet (hs.use (a := .clear) rfl rfl rfl rfl rfl)
  | peek k st => exact hquiet (hs.peek k st)
  | contains k st => exact hquiet (hs.use (a := .contains k st) rfl rfl rfl rfl rfl)
  | wait time => exact hquiet (hs.use (a := .wait time) rfl rfl rfl rfl rfl)
  | attend callers rung round => exact hquiet (hs.use (a := .wait 0) rfl rfl rfl rfl rfl)

end Sound

theorem sound_play (p : Pipeline) (moves : List (Move Outside Product)) :
    ∃ h, Sound h (play p.call moves (.start p.newCache)).1 (play p.call moves (.start p.newCache)).2 :=
  play_invariant p.call (P := fun H s => ∃ h, Sound h H s) (fun _ _ a ⟨_, hs⟩ => hs.moved p a) moves
    ⟨[], Sound.start p⟩

/-- Whatever is done with a pipeline, and in whatever order its computations go on: transformed files that are stored were
inserted, or their plan is from the very analysis that they were made with, and that one is from the very tree that they
found. -/
theorem unmixed_of_stored (p : Pipeline) (moves : List (Move Outside Product)) {k : Key} {x : Stored Product}
    (hx : (play p.call moves (.start p.newCache)).2.cache.slot? k .transform = some x) :
    Unmixed (play p.call moves (.start p.newCache)).1 k x.artifact := by
  obtain ⟨h, hs⟩ := sound_play p moves
  exact hs.unmixed k x hx

/-- The answers of a world in which nobody but the clock answers. -/
def onlyClock : (q : Question) → Response q.Answer
  | .clock => .ready ⟨0, 0⟩
  | .metadata _ | .tree _ | .prefetch _ _ | .content _ _ | .generate _ | .transform _ => .blocked

/-- On top of a tree that was inserted, an analysis, a plan and transformed files are computed and stored. -/
theorem unmixed_of_stored_empty :
    let p : Pipeline := ⟨.default, true, false, false⟩
    let k : Key := ⟨"acme", "vaults"⟩
    let i : Ingest := ⟨k, ⟨"acme", "vaults", k.url, "main", .open, 0⟩, .ofEntries [], none, ⟨0, 0⟩⟩
    let moves : List (Move Outside Product) := [.insert k (.tree i), .ask k .transform, .go 0 onlyClock] ++
      List.replicate 7 (.go 1 onlyClock) ++ List.replicate 2 (.go 0 onlyClock) ++ List.replicate 3 (.go 2 onlyClock) ++
      List.replicate 7 (.go 0 onlyClock)
    ∃ x, (play p.call moves (.start p.newCache)).2.cache.slot? k .transform = some x ∧
      Unmixed (play p.call moves (.start p.newCache)).1 k x.artifact := by
  intro p k i moves
  have hsome : ((play p.call moves (.start p.newCache)).2.cache.slot? k .transform).isSome := by decide +kernel
  obtain ⟨x, hx⟩ := Option.isSome_iff_exists.mp hsome
  exact ⟨x, hx, unmixed_of_stored p moves hx⟩

end ContractMigration.Pipeline
