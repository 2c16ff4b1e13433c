import ContractMigration.Proofs.Pipeline.Generations
import ContractMigration.Proofs.Pipeline.Requests
import ContractMigration.Proofs.Session.Deliveries

/-! Who reads what after an artifact was replaced. From then on it is in no slot, so no computation that is started later
gets to see it, and nothing that is stored names it. Only a computation that was under way may still end with something
made from it: that is not stored, but whoever has joined the computation is told it. -/

namespace ContractMigration.Pipeline

open Session Usage

variable {h : List (Usage.Event Product)} {H : List (Session.Event Product)} {s s' : Session Outside Product}
  {a : Artifact Product} {n : ℕ} {p : Pipeline}

/-! ### Sources -/

/-- What a computation delivers is made from what it has read. -/
theorem Sound.derivedBy_of_delivers (hs : Sound h H s) {f : Flight Outside Product} (hf : f ∈ s.flights)
    {d : Delivery Product} (hd : d ∈ f.delivers s.cache) :
    d.computation = f.computation ∧
      DerivedBy f.computation.key f.computation.stage (reads H f.computation.id) d.sources := by
  obtain ⟨hm, v, hpos⟩ := Flight.position_of_delivers hd
  have hmeets := hs.flights f hf
  rw [hpos] at hmeets
  exact ⟨hm, (hmeets _ rfl).2⟩

theorem Sound.graded (hs : Sound h H s) : s.Graded := fun _ hf _ hd => (hs.derivedBy_of_delivers hf hd).2.earlier

/-- What is delivered in the course of a session is what the use of its cache delivers meanwhile. -/
theorem passes_between (p : Pipeline) (before moves : List (Move Outside Product)) :
    Passes (play p.call before (.start p.newCache)).2
      (Session.deliveries p.call moves (play p.call before (.start p.newCache)).2)
      (play p.call (before ++ moves) (.start p.newCache)).2 := by
  rw [play_append]
  refine passes_play p.lawful_call (tracked_play p before) fun q _ => ?_
  obtain ⟨h, hsound⟩ := sound_play p (before ++ q)
  rw [play_append] at hsound
  exact hsound.graded

/-! ### Who does not get to see an artifact -/

/-- The computations from a number on have not received an artifact, and will not be told it by those they have joined. -/
structure Unaware (a : Artifact Product) (n : ℕ) (H : List (Session.Event Product)) (s : Session Outside Product) :
    Prop where
  read : ∀ id x, n ≤ id → .read id (.received (.ok x)) ∈ H → x.id ≠ a.id
  joined : ∀ f ∈ s.flights, n ≤ f.computation.id → ∀ other next, f.position = .joined other next →
    ∀ x, s.result? other = some (.ok x) → x.id ≠ a.id

namespace Unaware

/-- The computations that are not started yet. -/
theorem of_sound (hs : Sound h H s) (a : Artifact Product) : Unaware a s.cache.nextComputation H s where
  read := fun id _ hid hread => absurd (hs.read id _ hread).1 hid.not_gt
  joined := fun _ hf hid => absurd (hs.valid.started _ (mem_running hf)) hid.not_gt

theorem append (ha : Unaware a n H s) {E : List (Session.Event Product)}
    (hE : ∀ id x, n ≤ id → .read id (.received (.ok x)) ∈ E → x.id ≠ a.id) : Unaware a n (H ++ E) s where
  read := fun id x hid hread => (List.mem_append.mp hread).elim (ha.read id x hid) (hE id x hid)
  joined := ha.joined

/-- Nothing is told. -/
theorem quiet (ha : Unaware a n H s) : Unaware a n (H ++ []) s := by rwa [List.append_nil]

/-- Computations are started at most. -/
theorem active (ha : Unaware a n H s) (hr : s'.results = s.results)
    (hf : ∀ f ∈ s'.flights, f ∈ s.flights ∨ ∃ r, f.position = .active r) : Unaware a n H s' where
  read := ha.read
  joined := by
    intro f hfl hid other next hpos x hx
    rcases hf f hfl with hold | ⟨r, hactive⟩
    · rw [result?, hr] at hx
      exact ha.joined f hold hid other next hpos x hx
    · cases hactive.symm.trans hpos

theorem place (ha : Unaware a n H s) (hids : (s.usage.running.map Computation.id).Nodup)
    {f : Flight Outside Product} (hf : f ∈ s.flights) {q : Position Outside Product}
    (hq : ∀ other next, q = .joined other next → ∀ x, s.result? other = some (.ok x) → x.id ≠ a.id) :
    Unaware a n H (s.place f.computation.id q) where
  read := ha.read
  joined := by
    intro g hg hid
    rcases flights_place_cases hids hf hg with rfl | ⟨hold, -⟩
    · exact hq
    · exact ha.joined g hold hid

/-- A computation moves on without joining another one. -/
theorem place_of_ne (ha : Unaware a n H s) (hids : (s.usage.running.map Computation.id).Nodup)
    {f : Flight Outside Product} (hf : f ∈ s.flights) {q : Position Outside Product}
    (hq : ∀ other next, q ≠ .joined other next) : Unaware a n H (s.place f.computation.id q) :=
  ha.place hids hf fun other next e => absurd e (hq other next)

/-- What a computation ends with is new. -/
theorem land (ha : Unaware a n H s) (hgone : Gone a s.usage) (m : Computation) (r : Made Product) :
    Unaware a n H (s.land m r) where
  read := ha.read
  joined := by
    intro g hg hid other next hpos x hx
    rw [Tracked.result?_land] at hx
    split_ifs at hx with hother
    · cases r with
      | error e => cases hx
      | ok v =>
        rw [Cache.complete_value] at hx
        cases hx
        exact hgone.made.ne'
    · exact ha.joined g (List.mem_of_mem_filter hg) hid other next hpos x hx

/-- A computation is taken further where the artifact is gone. -/
theorem progress (ha : Unaware a n H s) (hs : Tracked H s) (hgone : Gone a s.usage) {f : Flight Outside Product}
    (hf : f ∈ s.flights) {E : List (Session.Event Product)} {qs : List Outside.Query} (h : Progress p.call s f E qs s') :
    Unaware a n (H ++ E) s' := by
  have hids := hs.valid.ids
  cases h with
  | stays => exact ha.quiet
  | ends r hpos => exact (ha.land hgone _ r).append fun _ _ _ h => nomatch List.mem_singleton.mp h
  | goesOn pos qs h => exact (ha.place_of_ne hids hf h.ne_joined).quiet
  | isServed k st next hpos r s₁ hc =>
    have hcalled := p.lawful_call s k st hs.valid
    have htracked := hs.called hcalled
    rw [hc] at hcalled htracked
    have hserved := place_of_ne (q := .active (next r)) (ha.active hcalled.results hcalled.active) htracked.valid.ids
      (hcalled.flights f hf) nofun
    refine hserved.append fun id x _ hread => ?_
    obtain ⟨-, hx⟩ := Session.Event.read.inj (List.mem_singleton.mp hread)
    obtain rfl := Read.received.inj hx
    obtain ⟨y, hy, rfl⟩ := slot?_of_settled hs.valid (congrArg Prod.fst hc)
    exact hgone.absent k st y hy
  | waits k st next hpos other s₁ hc =>
    have hcalled := p.lawful_call s k st hs.valid
    have htracked := hs.called hcalled
    obtain ⟨m, rfl, -, -, hm, -⟩ := exists_of_waiting p.lawful_call hs (congrArg Prod.fst hc)
    rw [hc] at hcalled htracked hm
    have hactive := ha.active hcalled.results hcalled.active
    refine (hactive.place htracked.valid.ids (hcalled.flights f hf) ?_).quiet
    rintro _ _ e x hx
    cases e
    rw [htracked.result?_eq_none hm] at hx
    cases hx
  | looks k st next hpos =>
    have hpeeked : Unaware a n H (s.peek k st).2 := ha.active rfl fun _ hfl => .inl hfl
    have hlooked := hpeeked.place_of_ne (q := .active (next (s.peek k st).1)) hids hf nofun
    exact hlooked.append fun _ _ _ h => nomatch List.mem_singleton.mp h
  | isTold other next hpos r hr =>
    have htold := ha.place_of_ne (q := .active (next r)) hids hf nofun
    refine htold.append fun id x hid hread => ?_
    obtain ⟨rfl, hx⟩ := Session.Event.read.inj (List.mem_singleton.mp hread)
    obtain rfl := Read.received.inj hx
    exact ha.joined f hf hid other next hpos x hr

/-- A move is made where the artifact is gone. -/
theorem moved (ha : Unaware a n H s) (hs : Tracked H s) (hgone : Gone a s.usage) (move : Move Outside Product) :
    Unaware a n (H ++ (s.moved p.call move).1) (s.moved p.call move).2 := by
  have hsame : ∀ {t : Session Outside Product}, t.results = s.results → t.flights = s.flights → Unaware a n H t :=
    fun hr hf => ha.active hr fun _ hfl => .inl (hf ▸ hfl)
  cases move with
  | ask k st =>
    have hcalled := p.lawful_call s k st hs.valid
    exact (ha.active hcalled.results hcalled.active).quiet
  | go id answer =>
    rcases progress_go p.call s id answer with ⟨f, hf, -, h⟩ | ⟨e, -⟩
    · exact ha.progress hs hgone hf h
    · rw [e]
      exact ha.quiet
  | insert k v =>
    have hinserted : Unaware a n H (s.moved p.call (.insert k v)).2 := hsame rfl rfl
    exact hinserted.append fun _ _ _ h => nomatch List.mem_singleton.mp h
  | _ => exact quiet (hsame rfl rfl)

/-- What the computations from the number on deliver is not made from the artifact. -/
theorem not_source (ha : Unaware a n H s) (hs : Sound h H s) {move : Move Outside Product} {d : Delivery Product}
    (hd : d ∈ s.delivered move) (hn : n ≤ d.computation.id) : ∀ b ∈ d.sources, b.id ≠ a.id := by
  intro b hb
  obtain ⟨f, hf, hdf⟩ := exists_of_mem_delivered hd
  obtain ⟨hm, hder⟩ := hs.derivedBy_of_delivers hf hdf
  obtain ⟨e, he, hread⟩ := List.mem_filterMap.mp (hder.received b hb)
  cases e with
  | read id r =>
    dsimp only at hread
    split_ifs at hread with hid
    obtain rfl := Option.some.inj hread
    exact ha.read id b (hid ▸ hm ▸ hn) he
  | _ => cases hread

theorem not_source_of_play (ha : Unaware a n H s) (hs : Tracked H s) (hsound : ∃ h, Sound h H s) (hgone : Gone a s.usage)
    {moves : List (Move Outside Product)} {d : Delivery Product} (hd : d ∈ Session.deliveries p.call moves s)
    (hn : n ≤ d.computation.id) : ∀ b ∈ d.sources, b.id ≠ a.id := by
  induction moves generalizing H s with
  | nil => cases hd
  | cons move rest ih =>
    obtain ⟨h, hsound⟩ := hsound
    rcases List.mem_append.mp hd with hd | hd
    · exact ha.not_source hsound hd hn
    · obtain ⟨acts, hacts⟩ := hs.exists_run_moved p.lawful_call move
      have hstill : Gone a (s.moved p.call move).2.usage := hacts ▸ gone_run acts hs.valid hgone
      exact ih (ha.moved hs hgone move) (hs.moved p.lawful_call move) (hsound.moved p move) hstill hd

end Unaware

/-! ### Who gets to see it -/

/-- An artifact was delivered, and another one was told as a source of it. -/
def Names (ds : List (Delivery Product)) (x u : Artifact Product) : Prop :=
  ∃ d ∈ ds, d.artifact = x ∧ ∃ b ∈ d.sources, b.isSame u

/-- An artifact of a repository was replaced in the course of a session, where `h` is what was done with the cache. -/
structure Replaced (p : Pipeline) (moves : List (Move Outside Product)) (h : List (Usage.Event Product)) (k : Key)
    (a : Artifact Product) : Prop where
  made : Usage.deliveries h = Session.deliveries p.call moves (.start p.newCache)
  numbered : Numbered h (play p.call moves (.start p.newCache)).2.usage
  forgotten : Forgotten h (play p.call moves (.start p.newCache)).2.usage k a

/-- Another artifact is in its slot. -/
theorem exists_replaced {before : List (Move Outside Product)} (moves : List (Move Outside Product)) {k : Key}
    {st : Stage} {u z : Stored Product} (hu : (play p.call before (.start p.newCache)).2.cache.slot? k st = some u)
    (hz : (play p.call (before ++ moves) (.start p.newCache)).2.cache.slot? k st = some z)
    (hother : z.artifact.isSame u.artifact = false) : ∃ h, Replaced p (before ++ moves) h k u.artifact := by
  obtain ⟨acts, hacts, hrun, hmade⟩ := passes_between p [] before
  obtain ⟨acts', hacts', hrun', hmade'⟩ := passes_between p before moves
  set start : Usage Product := Usage.start (p.config.cacheTtlSeconds * 1000) p.config.maxRepositories
  have hbefore : (play p.call before (.start p.newCache)).2.usage = run acts start := hrun
  rw [hbefore] at hrun' hmade'
  have hcoherent : CoherentRun (story acts start) (run acts start) :=
    run_invariant (P := CoherentRun) coherentRun_step acts hacts (coherentRun_start _ _)
  have hnumbered : Numbered (story (acts ++ acts') start) (run (acts ++ acts') start) := numbered_run _ _ _
  rw [story_append, run_append] at hnumbered
  refine ⟨story acts start ++ story acts' (run acts start), ?made, hrun' ▸ hnumbered, ?forgotten⟩
  case made =>
    rw [Session.deliveries_append, ← hmade', Usage.deliveries, List.filterMap_append]
    exact congrArg (· ++ _) hmade
  case forgotten =>
    have hx : (run acts start).cache.slot? k st = some u := congrArg Usage.cache hbefore ▸ hu
    have hy : (run acts' (run acts start)).cache.slot? k st = some z := congrArg Usage.cache hrun' ▸ hz
    exact hrun' ▸ forgotten_of_replaced hcoherent acts' hacts' hx hy hother

namespace Replaced

variable {before : List (Move Outside Product)} {k : Key}

/-- An artifact that was replaced stays so. -/
theorem append (hr : Replaced p before h k a) (moves : List (Move Outside Product)) :
    ∃ h', h ⊆ h' ∧ Replaced p (before ++ moves) h' k a := by
  obtain ⟨acts, -, hrun, hmade⟩ := passes_between p before moves
  have hnumbered := run_keeps (P := Numbered) (fun _ _ act hu => numbered_step hu act) acts hr.numbered
  refine ⟨_, List.subset_append_left _ _, ?_, hrun ▸ hnumbered, hrun ▸ forgotten_run acts hr.forgotten⟩
  rw [Usage.deliveries, List.filterMap_append, Session.deliveries_append, ← hr.made, ← hmade]
  rfl

/-- The computation that has ended with an artifact is the one that has delivered it. -/
theorem eq_of_ended (hr : Replaced p before h k a) {d : Delivery Product}
    (hd : d ∈ Session.deliveries p.call before (.start p.newCache)) {m : Computation}
    (hended : .ended m (.ok d.artifact) ∈ (play p.call before (.start p.newCache)).1) : m = d.computation := by
  obtain ⟨sources, hd'⟩ := exists_deliveries p.call hended
  rw [← hr.made, mem_deliveries] at hd hd'
  have honce := hr.forgotten.explained.once _ hd' _ hd d.artifact (List.mem_singleton_self _) d.artifact
    (List.mem_singleton_self _) rfl
  exact (Event.finished.inj honce).1

/-- Only what was under way when it was replaced, or had ended, names an artifact. -/
theorem lt_of_source (hr : Replaced p before h k a) {moves : List (Move Outside Product)} {d : Delivery Product}
    (hd : d ∈ Session.deliveries p.call (before ++ moves) (.start p.newCache)) {b : Artifact Product}
    (hb : b ∈ d.sources) (hba : b.isSame a) :
    d.computation.id < (play p.call before (.start p.newCache)).2.cache.nextComputation := by
  rw [Session.deliveries_append] at hd
  rcases List.mem_append.mp hd with hearly | hlate
  · rw [← hr.made, mem_deliveries] at hearly
    exact (hr.numbered.started _ _ _ (hr.numbered.finished _ _ _ hearly)).2.2
  · refine not_le.mp fun hle => ?_
    obtain ⟨h, hsound⟩ := sound_play p before
    have hunaware := Unaware.of_sound hsound a
    exact hunaware.not_source_of_play (tracked_play p before) ⟨h, hsound⟩ hr.forgotten.gone hlate hle b hb
      (Artifact.isSame_iff.mp hba).2

end Replaced

/-- A ticket for a computation that was started before is for one that runs since. -/
theorem exists_running_of_waiting {before moves : List (Move Outside Product)} {k : Key} {st : Stage} {id : ℕ}
    (hid : (p.call (play p.call (before ++ moves) (.start p.newCache)).2 k st).1 = .waiting id)
    (hlt : id < (play p.call before (.start p.newCache)).2.cache.nextComputation) :
    ∃ m ∈ (play p.call before (.start p.newCache)).2.usage.running, m.id = id ∧ m.key = k ∧ m.stage = st ∧
      (play p.call (before ++ moves) (.start p.newCache)).2.cache.registered? k st = some id := by
  obtain ⟨m, rfl, hkey, hstage, hm, hjoined⟩ := exists_of_waiting p.lawful_call (tracked_play p (before ++ moves)) hid
  obtain ⟨acts, -, hrun, -⟩ := passes_between p before moves
  rcases hjoined with ⟨hregistered, hflights⟩ | ⟨-, hnew⟩
  · rw [usage, hflights] at hm
    have hthere : m ∈ (play p.call (before ++ moves) (.start p.newCache)).2.usage.running := hm
    rw [hrun] at hthere
    exact ⟨m, (mem_running_run hthere).resolve_right hlt.not_ge, rfl, hkey, hstage, hregistered⟩
  · have hle := (advances_run acts (play p.call before (.start p.newCache)).2.usage).computations
    rw [← hrun] at hle
    exact absurd (hnew.trans_ge hle) hlt.not_ge

/-- An artifact `u` was replaced by `z` in its slot, and a request that was made afterwards is told `x`. -/
structure Reread (p : Pipeline) (seeding reseeding between after : List (Move Outside Product)) (k : Key) (su st : Stage)
    (u z : Stored Product) (x : Artifact Product) : Prop where
  held : (play p.call seeding (.start p.newCache)).2.cache.slot? k su = some u
  replaced : (play p.call (seeding ++ reseeding) (.start p.newCache)).2.cache.slot? k su = some z
  other : z.artifact.isSame u.artifact = false
  told : (play p.call (seeding ++ reseeding ++ between ++ .ask k st :: after) (.start p.newCache)).2.told? st
    (p.call (play p.call (seeding ++ reseeding ++ between) (.start p.newCache)).2 k st).1 = some (.ok x)

/-- Readers after a replacement. Whatever happened before, between and after, and in whatever order computations went on:
if a request that is made after an artifact was replaced is told something that names this artifact, then it has joined a
computation of the stage that was under way already when the artifact was replaced. Nothing stored and nothing that was
started later names it, and what the request is told is not stored either. -/
theorem joined_of_names_replaced (p : Pipeline) (seeding reseeding between after : List (Move Outside Product)) (k : Key)
    (su st : Stage) (u z : Stored Product) (x : Artifact Product)
    (hread : Reread p seeding reseeding between after k su st u z x) :
    let s₁ := (play p.call (seeding ++ reseeding) (.start p.newCache)).2
    let s₂ := (play p.call (seeding ++ reseeding ++ between) (.start p.newCache)).2
    let whole := seeding ++ reseeding ++ between ++ .ask k st :: after
    let s₃ := (play p.call whole (.start p.newCache)).2
    Names (Session.deliveries p.call whole (.start p.newCache)) x u.artifact →
      ∃ m ∈ s₁.usage.running, (p.call s₂ k st).1 = .waiting m.id ∧ m.key = k ∧ m.stage = st ∧
        s₂.cache.registered? k st = some m.id ∧ s₃.result? m.id = some (.ok x) ∧
        ∀ t y, s₃.cache.slot? k t = some y → y.artifact.isSame x = false := by
  intro s₁ s₂ whole s₃ hnames
  obtain ⟨hu, hz, hother, htold⟩ := hread
  obtain ⟨h₁, hr₁⟩ := exists_replaced reseeding hu hz hother
  obtain ⟨h₂, -, hr₂⟩ := hr₁.append between
  obtain ⟨h₃, hsub, hr₃⟩ := hr₂.append (.ask k st :: after)
  obtain ⟨d, hd, rfl, b, hb, hbu⟩ := hnames
  have hfinished : .finished d.computation (.ok d.artifact) d.sources ∈ h₃ := mem_deliveries.mp (hr₃.made ▸ hd)
  change s₃.told? st (p.call s₂ k st).1 = _ at htold
  rcases hticket : (p.call s₂ k st).1 with r | id <;> rw [hticket] at htold
  · -- what is served at once is stored, and what is stored does not name the artifact
    obtain rfl := Option.some.inj htold
    obtain ⟨y, hy, hyd⟩ := slot?_of_settled (tracked_play p _).valid hticket
    obtain ⟨e, he, hmade⟩ := Arisen.of_slot hr₂.forgotten.explained hy
    obtain rfl := hr₃.forgotten.explained.once e (hsub he) _ hfinished _ hmade _ (List.mem_singleton_self _)
      (congrArg Artifact.id hyd)
    have hnot := hr₂.forgotten.isSame_eq_false he hb hbu st y hy
    rw [hyd] at hnot
    simp [Artifact.isSame] at hnot
  · have hresult := result?_of_told htold
    obtain ⟨m', hm', hended⟩ := (tracked_play p whole).results id _ hresult
    have hlt : id < s₁.cache.nextComputation := by
      have hsplit : whole = (seeding ++ reseeding) ++ (between ++ .ask k st :: after) := List.append_assoc ..
      rw [← hm', hr₃.eq_of_ended hd hended]
      exact hr₁.lt_of_source (hsplit ▸ hd) hb hbu
    obtain ⟨m, hm, rfl, hkey, hstage, hregistered⟩ := exists_running_of_waiting hticket hlt
    exact ⟨m, hm, rfl, hkey, hstage, hregistered, hresult, hr₃.forgotten.isSame_eq_false hfinished hb hbu⟩

namespace Reread

/-- A pipeline with a host. -/
def pipeline : Pipeline := ⟨.default, true, false, false⟩

def key : Key := ⟨"acme", "vaults"⟩

def analysis : Product := .analysis (analyze key 0 [] pipeline.config.analysisOptions ⟨⟨0, 0⟩, 0⟩)

/-- An analysis is inserted, and a computation of a plan gets it. -/
def seeding : List (Move Outside Product) := [.insert key analysis, .ask key .plan, .go 0 onlyClock]

/-- Another analysis takes its place. -/
def reseeding : List (Move Outside Product) := [.insert key analysis]

/-- The computation goes on and ends. -/
def after : List (Move Outside Product) := [.go 0 onlyClock, .go 0 onlyClock]

/-- Someone who asks for a plan now is told one that names the analysis that was replaced. -/
theorem exists_names : ∃ u z x, Reread pipeline seeding reseeding [] after key .analysis .plan u z x ∧
    Names (Session.deliveries pipeline.call (seeding ++ reseeding ++ [] ++ .ask key .plan :: after)
      (.start pipeline.newCache)) x u.artifact := by
  let whole := seeding ++ reseeding ++ [] ++ .ask key .plan :: after
  let s₂ := (play pipeline.call (seeding ++ reseeding ++ []) (.start pipeline.newCache)).2
  let s₃ := (play pipeline.call whole (.start pipeline.newCache)).2
  let ticket := (pipeline.call s₂ key .plan).1
  have hheld : ((play pipeline.call seeding (.start pipeline.newCache)).2.cache.slot? key .analysis).any
      (fun y => y.artifact.isSame ⟨0, analysis⟩) = true := by decide +kernel
  have hreplaced : ((play pipeline.call (seeding ++ reseeding) (.start pipeline.newCache)).2.cache.slot? key .analysis).any
      (fun y => y.artifact.isSame ⟨1, analysis⟩) = true := by decide +kernel
  have hwaits : (s₂.told? .plan ticket).isNone = true := by decide +kernel
  have htold : (s₃.told? .plan ticket).any (fun r => r.isOk) = true := by decide +kernel
  have hsources : ((Session.deliveries pipeline.call whole (.start pipeline.newCache)).all fun d =>
      d.sources.any fun b => b.isSame ⟨0, analysis⟩) = true := by decide +kernel
  obtain ⟨u, hu, hold⟩ := (Option.any_eq_true _ _).mp hheld
  obtain ⟨z, hz, hnew⟩ := (Option.any_eq_true _ _).mp hreplaced
  obtain ⟨r, hr, hok⟩ := (Option.any_eq_true _ _).mp htold
  obtain ⟨hstage, hid⟩ := Artifact.isSame_iff.mp hold
  have hother : z.artifact.isSame u.artifact = false := by
    refine Bool.eq_false_iff.mpr fun hsame => ?_
    have hone := (Artifact.isSame_iff.mp hnew).2.symm.trans ((Artifact.isSame_iff.mp hsame).2.trans hid)
    exact absurd hone (by decide)
  rcases r with e | x
  · cases hok
  · refine ⟨u, z, x, ⟨hu, hz, hother, hr⟩, ?_⟩
    rcases hticket : ticket with r' | id <;> rw [hticket] at hwaits hr
    · cases hwaits
    · obtain ⟨m, -, hended⟩ := (tracked_play pipeline whole).results id _ (result?_of_told hr)
      obtain ⟨sources, hd⟩ := exists_deliveries pipeline.call hended
      obtain ⟨b, hb, hfirst⟩ := List.any_eq_true.mp (List.all_eq_true.mp hsources _ hd)
      obtain ⟨hbstage, hbid⟩ := Artifact.isSame_iff.mp hfirst
      exact ⟨_, hd, rfl, b, hb, Artifact.isSame_iff.mpr ⟨hbstage.trans hstage.symm, hbid.trans hid.symm⟩⟩

/-- So it is not true that whoever asks after an artifact was replaced is never told something that names it. -/
theorem not_forall_not_names : ¬∀ p seeding reseeding between after k su st u z x,
    Reread p seeding reseeding between after k su st u z x →
      ¬Names (Session.deliveries p.call (seeding ++ reseeding ++ between ++ .ask k st :: after) (.start p.newCache)) x
        u.artifact := by
  obtain ⟨u, z, x, hread, hnames⟩ := exists_names
  exact fun hnever => hnever _ _ _ _ _ _ _ _ u z x hread hnames

/-- The computation that was joined had got the analysis before it was replaced, and the plan is not stored. -/
theorem joined_plan :
    let s₁ := (play pipeline.call (seeding ++ reseeding) (.start pipeline.newCache)).2
    let s₂ := (play pipeline.call (seeding ++ reseeding ++ []) (.start pipeline.newCache)).2
    let whole := seeding ++ reseeding ++ [] ++ .ask key .plan :: after
    let s₃ := (play pipeline.call whole (.start pipeline.newCache)).2
    ∃ u z x, Reread pipeline seeding reseeding [] after key .analysis .plan u z x ∧
      Names (Session.deliveries pipeline.call whole (.start pipeline.newCache)) x u.artifact ∧
      ∃ m ∈ s₁.usage.running, (pipeline.call s₂ key .plan).1 = .waiting m.id ∧ m.key = key ∧ m.stage = .plan ∧
        s₂.cache.registered? key .plan = some m.id ∧ s₃.result? m.id = some (.ok x) ∧
        ∀ t y, s₃.cache.slot? key t = some y → y.artifact.isSame x = false := by
  intro s₁ s₂ whole s₃
  obtain ⟨u, z, x, hread, hnames⟩ := exists_names
  refine ⟨u, z, x, hread, hnames, ?_⟩
  exact joined_of_names_replaced pipeline seeding reseeding [] after key .analysis .plan u z x hread hnames

end Reread

end ContractMigration.Pipeline
