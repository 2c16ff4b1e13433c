import ContractMigration.Proofs.Pipeline.Demands
import ContractMigration.Proofs.Pipeline.Generations
import ContractMigration.Proofs.Pipeline.Requests

/-! Requests without a host that come back because an artifact is missing. A request is refused at once, and starts nothing,
if nothing up to its stage can be served. There is one other way: a plan can be served and nothing else, and transformed
files are asked for; then a computation is started, which is refused the analysis. As long as nobody else does anything,
there is no third way. Either way everything that can be seen of the cache stays as it was. -/

namespace ContractMigration

open Session Usage

/-! ### A request alone -/

namespace Session

variable {I : Interface} {α : Type} [Staged α] {call : Session I α → Key → Stage → Ticket α × Session I α}
  {H : List (Event α)} {s s' : Session I α} {n : ℕ}

/-- A move of a computation that is not one of the first `n`. -/
def IsOwn (n : ℕ) : Move I α → Prop
  | .go id _ => n ≤ id
  | _ => False

/-- An own move is progress of an own computation, or nothing happens. -/
theorem progress_of_own (s : Session I α) {a : Move I α} (ha : IsOwn n a) :
    (∃ f ∈ s.flights, n ≤ f.computation.id ∧
      Progress call s f (s.moved call a).1 (s.asked a) (s.moved call a).2) ∨
    s.moved call a = ([], s) ∧ s.asked a = [] := by
  cases a with
  | go id answer =>
    rcases progress_go call s id answer with ⟨f, hf, rfl, h⟩ | h
    · exact .inl ⟨f, hf, ha, h⟩
    · exact .inr h
  | _ => exact ha.elim

/-- Those who wait for an own computation, or for an older one that rests, wait for something sensible. -/
def Awaitable (n : ℕ) (s : Session I α) (id : ℕ) : Prop := n ≤ id ∨ ∃ m ∈ s.usage.running, m.id = id

omit [Staged α] in
theorem Awaitable.mono {id : ℕ} (h : Awaitable n s id) (hrunning : ∀ m ∈ s.usage.running, m.id = id → m ∈ s'.usage.running) :
    Awaitable n s' id := h.imp_right fun ⟨m, hm, hid⟩ => ⟨m, hrunning m hm hid, hid⟩

theorem ended_of_progress {f : Flight I α} {E : List (Event α)} {qs : List I.Query} (h : Progress call s f E qs s')
    {m : Computation} {r : Except Failure (Artifact α)} (hm : .ended m r ∈ E) : m = f.computation := by
  cases h with
  | ends r' hpos => exact (Event.ended.inj (List.mem_singleton.mp hm)).1
  | isServed k st next hpos r' s₁ hc => cases List.mem_singleton.mp hm
  | looks k st next hpos => cases List.mem_singleton.mp hm
  | isTold other next hpos r' hr => cases List.mem_singleton.mp hm
  | _ => cases hm

/-- Where all computations are old, own moves do nothing. -/
theorem play_of_no_own {moves : List (Move I α)} (hmoves : ∀ a ∈ moves, IsOwn n a)
    (hs : ∀ f ∈ s.flights, f.computation.id < n) : play call moves s = ([], s) := by
  induction moves with
  | nil => rfl
  | cons a rest ih =>
    rw [List.forall_mem_cons] at hmoves
    obtain ⟨hown, hrest⟩ := hmoves
    have hmove : s.moved call a = ([], s) := by
      rcases progress_of_own s hown with ⟨f, hf, hn, -⟩ | ⟨e, -⟩
      · exact absurd hn (not_le.mpr (hs f hf))
      · exact e
    rw [play, hmove, ih hrest]
    rfl

end Session

namespace Pipeline

/-! ### Requests that are served -/

/-- A failure that is not about a missing artifact. -/
def NotMissing (e : Failure) : Prop := e.kind ≠ .cacheState

theorem notMissing_mismatch (wanted found : Stage) : NotMissing (Artifact.mismatch wanted found) := nofun

theorem onlyFails_bind_ofStage {r : Except Failure (Artifact Product)} (hr : OnlyFails NotMissing r) (st : Stage) :
    OnlyFails NotMissing (r.bind (Artifact.ofStage st)) := by
  intro e he
  cases r with
  | error e' => exact hr e he
  | ok a =>
    have he' : a.ofStage st = .error e := he
    rw [Artifact.ofStage] at he'
    split_ifs at he'
    rw [← Except.error.inj he']
    exact notMissing_mismatch _ _

/-- What is known of a session in which the tree of a repository can be served, or the analysis, so that the computations
that are not among the first `n` are never refused anything. -/
structure Supplied (n : ℕ) (k : Key) (s : Session Outside Product) : Prop where
  supply : s.cache.visible? s.now k .tree ≠ none ∨ s.cache.visible? s.now k .analysis ≠ none ∧
    ∀ f ∈ s.flights, n ≤ f.computation.id → f.computation.stage ≠ .analysis
  own : ∀ f ∈ s.flights, n ≤ f.computation.id → f.computation.key = k ∧ f.computation.stage ≠ .tree ∧
    f.position.Relies (OnlyFails NotMissing) (fun j t => j = k ∧ t ∈ f.computation.stage.needs) (OnlyFails NotMissing)
  joined : ∀ f ∈ s.flights, n ≤ f.computation.id → ∀ other next, f.position = .joined other next → Awaitable n s other
  results : ∀ id r, n ≤ id → s.result? id = some r → OnlyFails NotMissing r

namespace Supplied

variable {n : ℕ} {k : Key} {H : List (Session.Event Product)} {s s' : Session Outside Product} {p : Pipeline}
  (hp : p.hasRepository = false)

/-- What an own computation waits for is at hand, or what that can be made from is. -/
theorem atHand (hs : Supplied n k s) {f : Flight Outside Product} (hf : f ∈ s.flights) (hn : n ≤ f.computation.id)
    {st : Stage} (hst : st ∈ f.computation.stage.needs) : ¬NothingAtHand s.cache s.now k st := by
  intro hnone
  have htree : s.cache.visible? s.now k .tree = none := hnone .tree (Nat.zero_le _)
  rcases hs.supply with h | ⟨hanalysis, hothers⟩
  · exact h htree
  · refine hanalysis (hnone .analysis ?_)
    have hne := hothers f hf hn
    generalize f.computation.stage = fst at hst hne
    cases fst <;> simp only [Stage.needs, List.mem_cons, List.not_mem_nil, or_false] at hst
    · exact absurd rfl hne
    · rw [hst]
    · rcases hst with rfl | rfl <;> decide

theorem looked (hs : Supplied n k s) (ht : Tracked H s) (h : Looked s s') : Supplied n k s' := by
  have hvisible : ∀ st, s'.cache.visible? s'.now k st = s.cache.visible? s.now k st := fun st => by
    rw [h.now]
    exact h.visible? ht.valid le_rfl k st
  have hsupply := hs.supply
  rw [← hvisible, ← hvisible] at hsupply
  obtain ⟨c, rfl, -⟩ := h.frame
  exact ⟨hsupply, hs.own, hs.joined, hs.results⟩

theorem enter (hs : Supplied n k s) (ht : Tracked H s) {st : Stage} (hst : st ≠ .tree) :
    Supplied n k (s.enter k st (p.task k st)).2 := by
  have hu := usage_enter s k st (p.task k st)
  have hvisible : ∀ t, (s.enter k st (p.task k st)).2.cache.visible? (s.enter k st (p.task k st)).2.now k t =
      s.cache.visible? s.now k t := fun t => by
    have h := visible?_use (u := s.usage) (a := .request k st) ht.valid rfl (le_refl s.now) k t
    have hnow : (s.enter k st (p.task k st)).2.now = s.now := congrArg Usage.now hu
    rw [← hu] at h
    rw [hnow]
    exact h
  have hrunning : ∀ m ∈ s.usage.running, m ∈ (s.enter k st (p.task k st)).2.usage.running := fun m hm => by
    rw [hu]
    exact List.mem_append_left _ hm
  refine ⟨?supply, fun f hf hn => ?own, fun f hf hn other next hpos => ?joined, fun id r hn hr => ?results⟩
  case supply =>
    rw [hvisible, hvisible]
    refine hs.supply.imp_right fun ⟨hanalysis, hothers⟩ => ⟨hanalysis, fun f hf hn => ?_⟩
    rcases mem_flights_enter.mp hf with hf | ⟨hstart, -⟩
    · exact hothers f hf hn
    · -- an analysis that can be served is not started
      rintro hstage
      obtain ⟨-, -, hst'⟩ := eq_of_start hstart
      have hnone := ((request_start_iff s.cache s.now k st).mp ⟨_, hstart⟩).1
      rw [← hst', hstage] at hnone
      exact hanalysis hnone
  case own =>
    rcases mem_flights_enter.mp hf with hf | ⟨hstart, hpos⟩
    · exact hs.own f hf hn
    · obtain ⟨-, hkey, hstage⟩ := eq_of_start hstart
      rw [hkey, hstage, hpos]
      exact ⟨rfl, hst, relies_task notMissing_mismatch p k st fun h => absurd h hst⟩
  case joined =>
    rcases mem_flights_enter.mp hf with hf | ⟨-, hactive⟩
    · exact (hs.joined f hf hn other next hpos).mono fun m hm _ => hrunning m hm
    · rw [hactive] at hpos
      cases hpos
  case results =>
    rw [result?, results_enter] at hr
    exact hs.results id r hn hr

include hp

/-- What is asked for while it, or what it can be made from, is at hand is not refused. -/
theorem call (hs : Supplied n k s) (ht : Tracked H s) {st : Stage} (hst : ¬NothingAtHand s.cache s.now k st) :
    Supplied n k (p.call s k st).2 ∧ (∀ r, (p.call s k st).1 = .settled r → OnlyFails NotMissing r) ∧
      ∀ id, (p.call s k st).1 = .waiting id → Awaitable n (p.call s k st).2 id := by
  have hwaits : ∀ id, (p.call s k st).1 = .waiting id → Awaitable n (p.call s k st).2 id := by
    intro id hid
    obtain ⟨m, hm, -, -, hrunning, -⟩ := exists_of_waiting p.lawful_call ht hid
    exact .inr ⟨m, hrunning, hm⟩
  rcases call_cases hp ht.valid k st with ⟨hnone, -⟩ | ⟨rfl, x, s₁, -, hlook, e⟩ | ⟨htree, -, s₁, hlook, e⟩
  · exact absurd hnone hst
  · refine ⟨by rw [e]; exact hs.looked ht hlook, fun r hr => ?_, hwaits⟩
    rw [e] at hr
    obtain rfl := Ticket.settled.inj hr
    exact nofun
  · refine ⟨by rw [e]; exact (hs.looked ht hlook).enter (ht.looked hlook) htree, fun r hr => ?_, hwaits⟩
    rw [e] at hr
    rcases enter_cases s₁ k st (p.task k st) with ⟨x, -, e'⟩ | ⟨id, -, -, e'⟩ | ⟨m, -, -, -, -, e'⟩ <;> rw [e'] at hr
    · obtain rfl := Ticket.settled.inj hr
      exact onlyFails_bind_ofStage (r := .ok x) nofun st
    · cases hr
    · cases hr

omit hp

theorem place (hs : Supplied n k s) (ht : Tracked H s) {f : Flight Outside Product} (hf : f ∈ s.flights)
    {pos : Position Outside Product}
    (hpos : pos.Relies (OnlyFails NotMissing) (fun j t => j = k ∧ t ∈ f.computation.stage.needs) (OnlyFails NotMissing))
    (hjoined : ∀ other next, pos = .joined other next → Awaitable n s other) :
    Supplied n k (s.place f.computation.id pos) := by
  have hrunning : ∀ m ∈ s.usage.running, m ∈ (s.place f.computation.id pos).usage.running := fun m hm => by
    rwa [usage_place]
  refine ⟨hs.supply.imp_right fun ⟨hanalysis, hothers⟩ => ⟨hanalysis, fun g hg hn => ?supply⟩, fun g hg hn => ?own,
    fun g hg hn other next hgpos => ?joined, hs.results⟩
  case supply =>
    rcases flights_place_cases ht.valid.ids hf hg with rfl | ⟨hold, -⟩
    · exact hothers f hf hn
    · exact hothers g hold hn
  case own =>
    rcases flights_place_cases ht.valid.ids hf hg with rfl | ⟨hold, -⟩
    · obtain ⟨hkey, hstage, -⟩ := hs.own f hf hn
      exact ⟨hkey, hstage, hpos⟩
    · exact hs.own g hold hn
  case joined =>
    rcases flights_place_cases ht.valid.ids hf hg with rfl | ⟨hold, -⟩
    · exact (hjoined other next hgpos).mono fun m hm _ => hrunning m hm
    · exact (hs.joined g hold hn other next hgpos).mono fun m hm _ => hrunning m hm

theorem land (hs : Supplied n k s) (ht : Tracked H s) {f : Flight Outside Product} (hf : f ∈ s.flights)
    (hn : n ≤ f.computation.id) {r : Made Product} (hr : OfStage f.computation.stage [] r)
    (hfails : OnlyFails NotMissing r) : Supplied n k (s.land f.computation r) := by
  obtain ⟨y, rfl⟩ := hr.exists_yield
  obtain ⟨hkey, hstage, -⟩ := hs.own f hf hn
  have hlasts : ∀ st, st.rank < f.computation.stage.rank →
      (s.land f.computation y.made).cache.visible? s.now k st = s.cache.visible? s.now k st := fun st hst =>
    hkey ▸ visible?_land ht.valid hf y hst
  refine ⟨?supply, fun g hg => hs.own g (List.mem_of_mem_filter hg),
    fun g hg hgn other next hpos => ?joined, fun id r hid hr => ?results⟩
  case supply =>
    have hrank : Stage.tree.rank < f.computation.stage.rank := by
      generalize f.computation.stage = fst at hstage
      cases fst <;> first | exact absurd rfl hstage | decide
    refine hs.supply.imp (fun htree => (hlasts .tree hrank).symm ▸ htree) fun ⟨hanalysis, hothers⟩ => ⟨?_, ?_⟩
    · have hne := hothers f hf hn
      have hlater : Stage.analysis.rank < f.computation.stage.rank := by
        generalize f.computation.stage = fst at hstage hne
        cases fst <;> first | exact absurd rfl hstage | exact absurd rfl hne | decide
      exact (hlasts .analysis hlater).symm ▸ hanalysis
    · exact fun g hg => hothers g (List.mem_of_mem_filter hg)
  case joined =>
    rcases hs.joined g (List.mem_of_mem_filter hg) hgn other next hpos with h | ⟨m, hm, hid⟩
    · exact .inl h
    · by_cases hmf : m.id = f.computation.id
      · exact .inl (hid ▸ hmf ▸ hn)
      · obtain ⟨g', hg', rfl⟩ := List.mem_map.mp hm
        exact .inr ⟨_, mem_running (List.mem_filter.mpr ⟨hg', bne_iff_ne.mpr hmf⟩), hid⟩
  case results =>
    rw [Tracked.result?_land] at hr
    split_ifs at hr
    · obtain rfl := Option.some.inj hr
      cases y with
      | failure e =>
        have hfail : OnlyFails NotMissing (.error e : Made Product) := hfails
        exact fun e' he => hfail e' (congrArg Except.error (Except.error.inj he))
      | value v sources staged => exact nofun
    · exact hs.results id r hid hr

include hp

theorem progress (hs : Supplied n k s) (ht : Tracked H s) {f : Flight Outside Product} (hf : f ∈ s.flights)
    (hn : n ≤ f.computation.id) {E : List (Session.Event Product)} {qs : List Outside.Query}
    (h : Progress p.call s f E qs s') : Supplied n k s' := by
  obtain ⟨reads, hmeets⟩ := ht.flights f hf
  obtain ⟨-, -, hrelies⟩ := hs.own f hf hn
  cases h with
  | stays => exact hs
  | ends r hpos =>
    rw [hpos] at hmeets hrelies
    exact hs.land ht hf hn hmeets hrelies
  | goesOn pos qs h =>
    exact hs.place ht hf (h.relies hrelies) fun other next hpos => absurd hpos (h.ne_joined other next)
  | isServed j st next hpos r s₁ hc =>
    rw [hpos] at hrelies
    obtain ⟨⟨rfl, hst⟩, hnext⟩ := hrelies
    have hserved := p.lawful_call s j st ht.valid
    obtain ⟨hcalled, hgood, -⟩ := hs.call hp ht (hs.atHand hf hn hst)
    have htracked := ht.called hserved
    rw [hc] at hserved hcalled hgood htracked
    obtain ⟨hsame, hfl⟩ := hserved.settled
    refine hcalled.place htracked (hfl.symm ▸ hf) ?_ fun _ _ h => nomatch h
    have hr := hnext r
    rw [hsame] at hr
    exact hr (hgood r rfl)
  | waits j st next hpos other s₁ hc =>
    rw [hpos] at hrelies
    obtain ⟨⟨rfl, hst⟩, hnext⟩ := hrelies
    have hwaits := p.lawful_call s j st ht.valid
    obtain ⟨hcalled, -, hawaits⟩ := hs.call hp ht (hs.atHand hf hn hst)
    have htracked := ht.called hwaits
    rw [hc] at hwaits hcalled hawaits htracked
    refine hcalled.place htracked (hwaits.flights f hf) (fun r hr => hnext r (onlyFails_bind_ofStage hr st)) ?_
    intro other' next' h
    obtain ⟨rfl, -⟩ := Position.joined.inj h
    exact hawaits other rfl
  | looks j st next hpos =>
    rw [hpos] at hrelies
    have hlook : Looked s (s.peek j st).2 := .look .refl j st
    exact (hs.looked ht hlook).place (ht.looked hlook) hf (hrelies _) fun _ _ h => nomatch h
  | isTold other next hpos r hr =>
    have hgood : OnlyFails NotMissing r := by
      rcases hs.joined f hf hn other next hpos with hown | ⟨m, hm, rfl⟩
      · exact hs.results other r hown hr
      · rw [ht.result?_eq_none hm] at hr
        cases hr
    rw [hpos] at hrelies
    exact hs.place ht hf (hrelies r hgood) fun _ _ h => nomatch h

theorem moved (hs : Supplied n k s) (ht : Tracked H s) {a : Move Outside Product} (ha : IsOwn n a) :
    Supplied n k (s.moved p.call a).2 := by
  rcases progress_of_own s ha with ⟨f, hf, hown, h⟩ | ⟨e, -⟩
  · exact hs.progress hp ht hf hown h
  · rwa [e]

end Supplied

/-- Own moves leave the computations as they are that are not own. -/
theorem running_own {p : Pipeline} {n : ℕ} {H : List (Session.Event Product)} {s : Session Outside Product}
    (ht : Tracked H s) {a : Move Outside Product} (ha : IsOwn n a) {m : Computation} (hm : m ∈ s.usage.running)
    (hn : m.id < n) : m ∈ (s.moved p.call a).2.usage.running := by
  rcases progress_of_own s ha with ⟨f, hf, hown, h⟩ | ⟨e, -⟩
  · refine (ht.running_progress p.lawful_call hf h hm).resolve_right ?_
    rintro ⟨r, hr⟩
    rw [ended_of_progress h hr] at hn
    exact absurd hown (not_le.mpr hn)
  · rwa [e]

/-- Where a tree or an analysis can be served, a request that is not refused at once is not refused later. -/
theorem notMissing_of_supply {p : Pipeline} (hp : p.hasRepository = false) {H : List (Session.Event Product)}
    {s : Session Outside Product} (ht : Tracked H s) {k : Key} {st : Stage}
    (hsupply : s.cache.visible? s.now k .tree ≠ none ∨ s.cache.visible? s.now k .analysis ≠ none)
    (hst : ¬NothingAtHand s.cache s.now k st) {rest : List (Move Outside Product)}
    (hrest : ∀ a ∈ rest, IsOwn s.cache.nextComputation a) {r : Except Failure (Artifact Product)}
    (htold : (play p.call rest (p.call s k st).2).2.told? st (p.call s k st).1 = some r) : OnlyFails NotMissing r := by
  set n := s.cache.nextComputation with hn
  have hold : ∀ f ∈ s.flights, f.computation.id < n := fun f hf => ht.valid.started _ (mem_running hf)
  have hstart : Supplied n k s := by
    refine ⟨hsupply.imp_right fun h => ⟨h, ?_⟩, ?_, ?_, ?_⟩
    · exact fun f hf hle => absurd hle (not_le.mpr (hold f hf))
    · exact fun f hf hle => absurd hle (not_le.mpr (hold f hf))
    · exact fun f hf hle => absurd hle (not_le.mpr (hold f hf))
    · intro id r hle hr
      cases (ht.result?_eq_none_of_le hle).symm.trans hr
  obtain ⟨hcalled, hsettled, hwaiting⟩ := hstart.call hp ht hst
  have htracked := ht.called (p.lawful_call s k st ht.valid)
  generalize (p.call s k st).2 = s₁ at *
  -- the computations that are older than the request do not move
  have hrun : Tracked (H ++ (play p.call rest s₁).1) (play p.call rest s₁).2 ∧ Supplied n k (play p.call rest s₁).2 ∧
      ∀ m ∈ s₁.usage.running, m.id < n → m ∈ (play p.call rest s₁).2.usage.running :=
    play_keeps p.call (P := fun H s' => Tracked H s' ∧ Supplied n k s' ∧
        ∀ m ∈ s₁.usage.running, m.id < n → m ∈ s'.usage.running) rest
      (fun H s' a ha ⟨ht', hs', hkept⟩ => ⟨ht'.moved p.lawful_call a, hs'.moved hp ht' (hrest a ha),
        fun m hm hlt => running_own ht' (hrest a ha) (hkept m hm hlt) hlt⟩)
      ⟨htracked, hcalled, fun m hm _ => hm⟩
  obtain ⟨htend, hend, hkept⟩ := hrun
  cases ht1 : (p.call s k st).1 with
  | settled r' =>
    rw [ht1, told?_settled] at htold
    exact Option.some.inj htold ▸ hsettled r' ht1
  | waiting id =>
    rw [ht1, told?_waiting] at htold
    obtain ⟨r', hr', rfl⟩ := Option.map_eq_some_iff.mp htold
    refine onlyFails_bind_ofStage ?_ st
    by_cases hid : n ≤ id
    · exact hend.results id r' hid hr'
    · obtain ⟨m, hm, rfl⟩ := (hwaiting id ht1).resolve_left hid
      rw [htend.result?_eq_none (hkept m hm (not_le.mp hid))] at hr'
      cases hr'

/-! ### A plan and nothing else -/

/-- A plan can be served, and neither the files that it would transform nor the analysis and the tree. -/
def Stranded (c : Cache Product) (now : ℕ) (k : Key) : Prop :=
  c.visible? now k .plan ≠ none ∧ c.visible? now k .transform = none ∧ NothingAtHand c now k .analysis

/-- If something up to a stage can be served, but neither this stage nor anything up to the analysis, then the plan can, and
the stage is that of transformed files. -/
theorem stranded_of_nothingAtHand {c : Cache Product} {now : ℕ} {k : Key} {st : Stage}
    (hnone : NothingAtHand c now k .analysis) (hvisible : c.visible? now k st = none) (htree : st ≠ .tree)
    (hat : ¬NothingAtHand c now k st) : st = .transform ∧ Stranded c now k := by
  cases st with
  | tree => exact absurd rfl htree
  | analysis => exact absurd hnone hat
  | plan => exact absurd ((nothingAtHand_next rfl).mpr ⟨hnone, hvisible⟩) hat
  | transform =>
    refine ⟨rfl, fun hplan => hat ?_, hvisible, hnone⟩
    have hupToPlan : NothingAtHand c now k .plan := (nothingAtHand_next rfl).mpr ⟨hnone, hplan⟩
    exact (nothingAtHand_next rfl).mpr ⟨hupToPlan, hvisible⟩

/-- What can be seen of the cache, now and later, which computations run and which of them can be joined is as before. -/
structure Undisturbed (s s' : Session Outside Product) : Prop where
  visible : ∀ now, s.now ≤ now → ∀ k st, s'.cache.visible? now k st = s.cache.visible? now k st
  handles : s'.cache.handles = s.cache.handles
  flights : s'.flights = s.flights

theorem Undisturbed.of_looked {s s' : Session Outside Product} (hs : Valid s.usage) (h : Looked s s') :
    Undisturbed s s' := by
  have hvisible : ∀ now, s.now ≤ now → ∀ k st, s'.cache.visible? now k st = s.cache.visible? now k st :=
    fun now hnow k st => h.visible? hs hnow k st
  obtain ⟨c, rfl, hc⟩ := h.frame
  exact ⟨hvisible, hc.handles, rfl⟩

/-- A computation of transformed files waits for the analysis, and fails as that does. -/
theorem task_transform (p : Pipeline) (k : Key) :
    ∃ next, p.task k .transform = .await k .analysis next ∧ ∀ e, next (.error e) = .done (.error e) :=
  ⟨_, rfl, fun _ => rfl⟩

/-- A computation `m` of transformed files that was started after `s` and can get no analysis: either it has still to ask
for that or to end with what it was told, or everything is as before. -/
structure Stuck (p : Pipeline) (s : Session Outside Product) (m : Computation) (s' : Session Outside Product) : Prop where
  now : s'.now = s.now
  visible : ∀ now, s.now ≤ now → ∀ k st, s'.cache.visible? now k st = s.cache.visible? now k st
  misses : s'.cache.misses = s.cache.misses + 1
  nextComputation : s'.cache.nextComputation = s.cache.nextComputation + 1
  phase : s'.flights = s.flights ∧ s'.cache.handles = s.cache.handles ∨
    s'.result? m.id = none ∧ s'.cache.handles = s.cache.handles ++ [⟨m.key, m.stage, m.id⟩] ∧
      ∃ r, s'.flights = s.flights ++ [⟨m, .active r⟩] ∧
        (r = p.task m.key .transform ∨ ∃ e, r = .done (.error e))

namespace Stuck

variable {p : Pipeline} {H : List (Session.Event Product)} {s s' s'' : Session Outside Product} {m : Computation}

theorem nothingAtHand (h : Stuck p s m s') (hnone : NothingAtHand s.cache s.now m.key .analysis) :
    NothingAtHand s'.cache s'.now m.key .analysis := fun t ht => by
  rw [h.now, h.visible s.now le_rfl]
  exact hnone t ht

theorem flights_place (hold : ∀ f ∈ s.flights, f.computation.id ≠ m.id) {r : Routine Outside Product (Made Product)}
    (hflights : s'.flights = s.flights ++ [⟨m, .active r⟩]) (pos : Position Outside Product) :
    (s'.place m.id pos).flights = s.flights ++ [⟨m, pos⟩] := by
  have hsame : s.flights.map (fun f => if f.computation.id = m.id then { f with position := pos } else f) = s.flights :=
    (List.map_congr_left fun f hf => if_neg (hold f hf)).trans (List.map_id' _)
  rw [place, hflights, List.map_append, hsame]
  simp

/-- The computation asks for the analysis, and is refused. -/
theorem asks (hp : p.hasRepository = false) (hs' : Valid s'.usage) (h : Stuck p s m s')
    (hold : ∀ f ∈ s.flights, f.computation.id ≠ m.id) (hnone : NothingAtHand s.cache s.now m.key .analysis)
    (hresult : s'.result? m.id = none) (hhandles : s'.cache.handles = s.cache.handles ++ [⟨m.key, m.stage, m.id⟩])
    (hflights : s'.flights = s.flights ++ [⟨m, .active (p.task m.key .transform)⟩]) {r : Except Failure (Artifact Product)}
    {s₁ : Session Outside Product} (hc : p.call s' m.key .analysis = (.settled r, s₁)) :
    ∃ e, r = .error e ∧ Stuck p s m (s₁.place m.id (.active (.done (.error e)))) := by
  obtain ⟨s₂, reason, hlook, e⟩ := call_of_nothingAtHand hp hs' (h.nothingAtHand hnone)
  obtain ⟨hr, rfl⟩ := Prod.mk.inj (e.symm.trans hc)
  obtain rfl := Ticket.settled.inj hr
  have hvisible : ∀ now, s.now ≤ now → ∀ k st, s₂.cache.visible? now k st = s.cache.visible? now k st :=
    fun now hnow k st => (hlook.visible? hs' (h.now.trans_le hnow) k st).trans (h.visible now hnow k st)
  obtain ⟨c, rfl, hc'⟩ := hlook.frame
  exact ⟨_, rfl, h.now, hvisible, hc'.misses.trans h.misses, hc'.nextComputation.trans h.nextComputation,
    .inr ⟨hresult, hc'.handles.trans hhandles, _, flights_place hold hflights _,
      .inr ⟨_, rfl⟩⟩⟩

/-- The computation ends with a failure. -/
theorem ends (h : Stuck p s m s') (hold : ∀ f ∈ s.flights, f.computation.id ≠ m.id)
    (hhold : ∀ x ∈ s.cache.handles, x.id ≠ m.id)
    (hhandles : s'.cache.handles = s.cache.handles ++ [⟨m.key, m.stage, m.id⟩]) {pos : Position Outside Product}
    (hflights : s'.flights = s.flights ++ [⟨m, pos⟩]) (e : Failure) : Stuck p s m (s'.land m (.error e)) := by
  refine ⟨h.now, h.visible, h.misses, h.nextComputation, .inl ⟨?_, ?_⟩⟩
  · have hsame : s.flights.filter (fun f => f.computation.id != m.id) = s.flights :=
      List.filter_eq_self.mpr fun f hf => bne_iff_ne.mpr (hold f hf)
    rw [land, hflights, List.filter_append, hsame]
    simp
  · have hsame : s.cache.handles.filter (fun x => x != ⟨m.key, m.stage, m.id⟩) = s.cache.handles :=
      List.filter_eq_self.mpr fun x hx => bne_iff_ne.mpr fun he => hhold x hx (congrArg Handle.id he)
    show s'.cache.handles.filter (fun x => x != ⟨m.key, m.stage, m.id⟩) = s.cache.handles
    rw [hhandles, List.filter_append, hsame]
    simp

/-- An own move while the computation has not ended. -/
theorem progress (hp : p.hasRepository = false) (hs' : Valid s'.usage) (h : Stuck p s m s')
    (hold : ∀ f ∈ s.flights, f.computation.id ≠ m.id) (hhold : ∀ x ∈ s.cache.handles, x.id ≠ m.id)
    (hnone : NothingAtHand s.cache s.now m.key .analysis) {r : Routine Outside Product (Made Product)}
    (hresult : s'.result? m.id = none) (hhandles : s'.cache.handles = s.cache.handles ++ [⟨m.key, m.stage, m.id⟩])
    (hflights : s'.flights = s.flights ++ [⟨m, .active r⟩])
    (hr : r = p.task m.key .transform ∨ ∃ e, r = .done (.error e)) {f : Flight Outside Product}
    (hf : f = ⟨m, .active r⟩) {E : List (Session.Event Product)} {qs : List Outside.Query}
    (hprogress : Progress p.call s' f E qs s'') : Stuck p s m s'' := by
  obtain ⟨next, htask, hnext⟩ := p.task_transform m.key
  have hpos : f.position = .active r := congrArg Flight.position hf
  have hcomputation : f.computation = m := congrArg Flight.computation hf
  rcases hr with rfl | ⟨e, rfl⟩
  · -- it has still to ask for the analysis
    rw [htask] at hpos
    rcases hprogress.of_await hpos with rfl | ⟨r, s₁, hc, rfl⟩ | ⟨other, s₁, hc, -⟩
    · exact h
    · obtain ⟨e, rfl, hasked⟩ := h.asks hp hs' hold hnone hresult hhandles hflights hc
      rw [hcomputation, hnext]
      exact hasked
    · obtain ⟨s₂, reason, -, e⟩ := call_of_nothingAtHand hp hs' (h.nothingAtHand hnone)
      cases e.symm.trans hc
  · rcases hprogress.of_done hpos with rfl | rfl
    · exact h
    · rw [hcomputation]
      exact h.ends hold hhold hhandles hflights e

theorem moved (hp : p.hasRepository = false) (ht : Tracked H s') (h : Stuck p s m s')
    (hold : ∀ f ∈ s.flights, f.computation.id < m.id) (hhold : ∀ x ∈ s.cache.handles, x.id < m.id)
    (hnone : NothingAtHand s.cache s.now m.key .analysis) {a : Move Outside Product} (ha : IsOwn m.id a) :
    Stuck p s m (s'.moved p.call a).2 := by
  rcases progress_of_own s' ha with ⟨f, hf, hown, hprogress⟩ | ⟨e, -⟩
  · rcases h.phase with ⟨hflights, -⟩ | ⟨hresult, hhandles, r, hflights, hr⟩ <;> rw [hflights] at hf
    · exact absurd (hold f hf) (not_lt.mpr hown)
    · rcases List.mem_append.mp hf with hf | hf
      · exact absurd (hold f hf) (not_lt.mpr hown)
      · exact h.progress hp ht.valid (fun g hg => (hold g hg).ne) (fun x hx => (hhold x hx).ne) hnone hresult hhandles
          hflights hr (List.mem_singleton.mp hf) hprogress
  · rwa [e]

theorem play (hp : p.hasRepository = false) (ht : Tracked H s') (h : Stuck p s m s')
    (hold : ∀ f ∈ s.flights, f.computation.id < m.id) (hhold : ∀ x ∈ s.cache.handles, x.id < m.id)
    (hnone : NothingAtHand s.cache s.now m.key .analysis) {rest : List (Move Outside Product)}
    (hrest : ∀ a ∈ rest, IsOwn m.id a) : Stuck p s m (Session.play p.call rest s').2 :=
  (play_keeps p.call (P := fun H s' => Tracked H s' ∧ Stuck p s m s') rest
    (fun _ _ a ha ⟨ht', hs'⟩ => ⟨ht'.moved p.lawful_call a, hs'.moved hp ht' hold hhold hnone (hrest a ha)⟩) ⟨ht, h⟩).2

end Stuck

/-- A computation of transformed files that has just been started and can get no analysis. -/
theorem Stuck.enter {p : Pipeline} {s s₁ : Session Outside Product} (hs : Valid s.usage) (hlook : Looked s s₁) {k : Key}
    {m : Computation} (hvis : s₁.cache.visible? s₁.now k .transform = none)
    (hreg : s₁.cache.registered? k .transform = none)
    (hm : m = ⟨s₁.cache.nextComputation, k, .transform, s₁.cache.epoch k .transform⟩)
    (hresult : s.result? m.id = none) :
    Stuck p s m (s₁.enter k .transform (p.task k .transform)).2 := by
  have hvisible : ∀ now, s.now ≤ now → ∀ j t,
      (s₁.enter k .transform (p.task k .transform)).2.cache.visible? now j t = s.cache.visible? now j t := by
    intro now hnow j t
    have hnow₁ : (s₁.usage.step (.request k .transform)).now ≤ now := hlook.now.trans_le hnow
    have h := visible?_use (a := .request k .transform) (hlook.valid hs) rfl hnow₁ j t
    rw [← usage_enter s₁ k .transform (p.task k .transform)] at h
    exact h.trans (hlook.visible? hs hnow j t)
  have hexpire := Cache.SameRest.expire s₁.cache s₁.now k .transform
  obtain ⟨c, rfl, hc⟩ := hlook.frame
  rcases Cache.request_cases c s.now k .transform with ⟨x, hx, -⟩ | ⟨id, -, hid, -⟩ | ⟨-, -, e⟩
  · exact absurd (hx.symm.trans hvis) nofun
  · exact absurd (hid.symm.trans hreg) nofun
  · rw [Session.enter, e] at hvisible ⊢
    refine ⟨rfl, hvisible, congrArg (· + 1) hc.misses, congrArg (· + 1) hc.nextComputation, .inr ⟨hresult, ?_, ?_⟩⟩
    · rw [hm]
      exact congrArg (· ++ [(⟨k, .transform, c.nextComputation⟩ : Handle)]) hc.handles
    · rw [hm]
      exact ⟨_, rfl, .inl rfl⟩

/-- If a request that was not refused at once comes back because an artifact is missing, it was for transformed files, of
which only the plan could be served. -/
theorem stranded_of_missing {p : Pipeline} (hp : p.hasRepository = false) {H : List (Session.Event Product)}
    {s : Session Outside Product} (ht : Tracked H s) {k : Key} {st : Stage} (hat : ¬NothingAtHand s.cache s.now k st)
    {rest : List (Move Outside Product)} (hrest : ∀ a ∈ rest, IsOwn s.cache.nextComputation a) {e : Failure}
    (he : e.kind = .cacheState)
    (htold : (play p.call rest (p.call s k st).2).2.told? st (p.call s k st).1 = some (.error e)) :
    st = .transform ∧ Stranded s.cache s.now k ∧ Undisturbed s (play p.call rest (p.call s k st).2).2 ∧
      (play p.call rest (p.call s k st).2).2.cache.misses = s.cache.misses + 1 ∧
      (play p.call rest (p.call s k st).2).2.cache.nextComputation = s.cache.nextComputation + 1 := by
  have hsupply : s.cache.visible? s.now k .tree = none ∧ s.cache.visible? s.now k .analysis = none := by
    by_contra hsome
    exact notMissing_of_supply hp ht (not_and_or.mp hsome) hat hrest htold e rfl he
  have hnone : NothingAtHand s.cache s.now k .analysis :=
    (nothingAtHand_next rfl).mpr ⟨nothingAtHand_tree.mpr hsupply.1, hsupply.2⟩
  have hold : ∀ f ∈ s.flights, f.computation.id < s.cache.nextComputation := fun f hf =>
    ht.valid.started _ (mem_running hf)
  have hhold : ∀ x ∈ s.cache.handles, x.id < s.cache.nextComputation := fun x hx => by
    obtain ⟨m, hm, rfl⟩ := ht.manned x hx
    exact ht.valid.started m hm
  have htracked := ht.called (p.lawful_call s k st ht.valid)
  rcases call_cases hp ht.valid k st with ⟨h, -⟩ | ⟨-, x, s₁, hx, -⟩ | ⟨htree, -, s₁, hlook, hcall⟩
  · exact absurd h hat
  · exact absurd (hx.symm.trans hsupply.1) nofun
  rcases enter_cases s₁ k st (p.task k st) with ⟨x, -, e'⟩ | ⟨id, -, -, e'⟩ | ⟨m, hvis, hreg, hm, -, e'⟩
  · -- what can be served is no failure
    rw [hcall, e', told?_settled] at htold
    exact absurd he (onlyFails_bind_ofStage (r := .ok x) nofun st e (Option.some.inj htold))
  · -- a computation that was there before does not end
    have hwaiting : (p.call s k st).1 = .waiting id := by rw [hcall, e']
    have hflights : (p.call s k st).2.flights = s.flights := by
      obtain ⟨c, rfl, -⟩ := hlook.frame
      rw [hcall, e']
    obtain ⟨m, rfl, -, -, hrunning, -⟩ := exists_of_waiting p.lawful_call ht hwaiting
    rw [play_of_no_own hrest (hflights.symm ▸ hold), hwaiting, told?_waiting, htracked.result?_eq_none hrunning] at htold
    cases htold
  · have hvisible : s.cache.visible? s.now k st = none := by
      rw [← hlook.visible? ht.valid le_rfl, ← hlook.now]
      exact hvis
    obtain ⟨rfl, hstranded⟩ := stranded_of_nothingAtHand hnone hvisible htree hat
    have hid : m.id = s.cache.nextComputation := by
      obtain ⟨c, rfl, hc⟩ := hlook.frame
      rw [hm]
      exact hc.nextComputation
    have hkey : m.key = k := by rw [hm]
    have hstuck : Stuck p s m (p.call s k .transform).2 := by
      rw [hcall]
      exact Stuck.enter ht.valid hlook hvis hreg hm (ht.result?_eq_none_of_le hid.ge)
    have hend := hstuck.play hp htracked (hid ▸ hold) (hid ▸ hhold) (hkey ▸ hnone) (hid ▸ hrest)
    refine ⟨rfl, hstranded, ?_, hend.misses, hend.nextComputation⟩
    rcases hend.phase with ⟨hflights, hhandles⟩ | ⟨hno, -⟩
    · exact ⟨hend.visible, hhandles, hflights⟩
    · rw [hcall, e', told?_waiting, ← e', ← hcall, hno] at htold
      cases htold

/-! ### All requests -/

/-- Without a host, in whatever state a cache has come to be: a request for which nothing up to its stage can be served is
refused at once. And if a request, while nobody else does anything, comes back because an artifact is missing, then
everything that can be seen of the cache is as before, and either the request was refused so and has started nothing, or it
was for transformed files, of which only the plan could be served, and has started the one computation that ended with this
failure. -/
theorem undisturbed_of_missing {p : Pipeline} (hp : p.hasRepository = false) (moves : List (Move Outside Product))
    (k : Key) (st : Stage) :
    let s := (play p.call moves (.start p.newCache)).2
    (NothingAtHand s.cache s.now k st → ∃ e, e.kind = .cacheState ∧ (p.call s k st).1 = .settled (.error e)) ∧
    ∀ rest : List (Move Outside Product), (∀ a ∈ rest, IsOwn s.cache.nextComputation a) →
      let s' := (play p.call rest (p.call s k st).2).2
      ∀ e, e.kind = .cacheState → s'.told? st (p.call s k st).1 = some (.error e) →
        Undisturbed s s' ∧
          (NothingAtHand s.cache s.now k st ∧ s'.cache.misses = s.cache.misses ∧
              s'.cache.nextComputation = s.cache.nextComputation ∨
            st = .transform ∧ Stranded s.cache s.now k ∧ s'.cache.misses = s.cache.misses + 1 ∧
              s'.cache.nextComputation = s.cache.nextComputation + 1) := by
  intro s
  have ht : Tracked _ s := (Tracked.start _ _).play p.lawful_call moves
  have hold : ∀ f ∈ s.flights, f.computation.id < s.cache.nextComputation := fun f hf =>
    ht.valid.started _ (mem_running hf)
  refine ⟨fun hnone => ?refused, fun rest hrest => ?missing⟩
  case refused =>
    obtain ⟨s₁, reason, -, hcall⟩ := call_of_nothingAtHand hp ht.valid hnone
    exact ⟨_, rfl, by rw [hcall]⟩
  case missing =>
    intro s' e he htold
    by_cases hat : NothingAtHand s.cache s.now k st
    · obtain ⟨s₁, reason, hlook, hcall⟩ := call_of_nothingAtHand hp ht.valid hat
      have hs' : s' = s₁ := by
        obtain ⟨c, rfl, -⟩ := hlook.frame
        simp only [s', hcall, play_of_no_own (s := { s with cache := c }) hrest hold]
      rw [hs']
      have hundisturbed := Undisturbed.of_looked ht.valid hlook
      obtain ⟨c, rfl, hc⟩ := hlook.frame
      exact ⟨hundisturbed, .inl ⟨hat, hc.misses, hc.nextComputation⟩⟩
    · obtain ⟨hst, hstranded, hundisturbed, hcounters⟩ := stranded_of_missing hp ht hat hrest he htold
      exact ⟨hundisturbed, .inr ⟨hst, hstranded, hcounters⟩⟩

/-- An analysis was inserted and is too old now; a plan is asked for. -/
theorem undisturbed_of_missing_old :
    let p : Pipeline := ⟨.default, false, false, false⟩
    let k : Key := ⟨"acme", "vaults"⟩
    let a : Analysis := analyze k 0 [] p.config.analysisOptions ⟨⟨0, 0⟩, 0⟩
    let s := (play p.call [.insert k (.analysis a), .wait 1800000] (.start p.newCache)).2
    p.hasRepository = false ∧ (∃ e, e.kind = .cacheState ∧ (p.call s k .plan).1 = .settled (.error e)) ∧
      Undisturbed s (p.call s k .plan).2 := by
  intro p k a s
  have hp : p.hasRepository = false := rfl
  have hs : s = (play p.call [.insert k (.analysis a), .wait 1800000] (.start p.newCache)).2 := rfl
  have hall : ∀ t ∈ Stage.all, (s.cache.visible? s.now k t).isNone = true := by decide +kernel
  have h := undisturbed_of_missing hp [.insert k (.analysis a), .wait 1800000] k .plan
  clear_value s
  rw [← hs] at h
  obtain ⟨hrefused, huntouched⟩ := h
  obtain ⟨e, he, hcall⟩ := hrefused fun t _ => Option.isNone_iff_eq_none.mp (hall t (Stage.mem_all t))
  refine ⟨hp, ⟨e, he, hcall⟩, (huntouched [] nofun e he ?_).1⟩
  rw [hcall]
  exact told?_settled _ _ _

/-- An analysis was inserted, a plan was made from it, and the analysis is too old now. Files are to be transformed: a
computation is started before that comes back because there is no analysis. -/
theorem transform_of_plan_starts :
    let p : Pipeline := ⟨.default, false, false, false⟩
    let k : Key := ⟨"acme", "vaults"⟩
    let a : Analysis := analyze k 0 [] p.config.analysisOptions ⟨⟨0, 0⟩, 0⟩
    let moves : List (Move Outside Product) := [.insert k (.analysis a), .wait 1000000, .ask k .plan, .go 0 onlyClock,
      .go 0 onlyClock, .go 0 onlyClock, .wait 1000000]
    let s := (play p.call moves (.start p.newCache)).2
    let s' := (play p.call [.go 1 onlyClock, .go 1 onlyClock] (p.call s k .transform).2).2
    (∃ e, e.kind = .cacheState ∧ s'.told? .transform (p.call s k .transform).1 = some (.error e)) ∧
      s'.cache.misses ≠ s.cache.misses ∧ s'.cache.nextComputation ≠ s.cache.nextComputation := by
  intro p k a moves s s'
  have htold : (s'.told? .transform (p.call s k .transform).1).any
      (fun | .error e => e.kind == .cacheState | .ok _ => false) = true := by decide +kernel
  have hmisses : s'.cache.misses ≠ s.cache.misses := by decide +kernel
  have hnext : s'.cache.nextComputation ≠ s.cache.nextComputation := by decide +kernel
  rcases hr : s'.told? .transform (p.call s k .transform).1 with _ | e | x <;> rw [hr] at htold
  · cases htold
  · exact ⟨⟨e, beq_iff_eq.mp htold, rfl⟩, hmisses, hnext⟩
  · cases htold

end Pipeline

end ContractMigration
