import ContractMigration.Proofs.Cache.Staging
import ContractMigration.Proofs.Session.Answers
import ContractMigration.Proofs.Session.Conduct
import ContractMigration.Proofs.Session.Failing

/-! Stages are kept apart in a session. Whoever calls for a stage, a caller or a computation, is served with an artifact of
that stage or gets the ticket of a computation of it, and that ends with such an artifact or fails; so the check of what is
given never fails. A failure that somebody is told is one that a computation has come to; where the failures of the world and
those that computations come to by themselves are of some kind, so are all that anybody is told. -/

namespace ContractMigration

open Usage

variable {I : Interface} {α β γ : Type} [Staged α]

/-! ### Failures of a kind -/

/-- An artifact of a stage, or a failure of some kind. -/
def Proper (B : Failure → Prop) (st : Stage) (r : Except Failure (Artifact α)) : Prop :=
  (∀ x, r = .ok x → x.stage = st) ∧ OnlyFails B r

namespace Routine

/-- While the world answers as it should, and each stage that is waited for is made or fails in some way only, a routine ends
with a result of some kind. -/
def Confined (fine : (q : I.Query) → I.Answer q → Prop) (B : Failure → Prop) (Q : β → Prop) : Routine I α β → Prop
  | done b => Q b
  | ask q next => ∀ a, fine q a → Confined fine B Q (next a)
  | await _ st next => ∀ r, Proper B st r → Confined fine B Q (next r)
  | peek _ _ next => ∀ a, Confined fine B Q (next a)
  | pause next => Confined fine B Q next
  | stall => True

variable {fine : (q : I.Query) → I.Answer q → Prop} {B : Failure → Prop} {P : β → Prop} {Q : γ → Prop}

theorem Confined.bind {r : Routine I α β} {f : β → Routine I α γ} (hr : r.Confined fine B P)
    (hf : ∀ b, P b → (f b).Confined fine B Q) : (r.bind f).Confined fine B Q := by
  induction r with
  | done b => exact hf b hr
  | ask q next ih => exact fun a ha => ih a (hr a ha)
  | await k st next ih => exact fun r hproper => ih r (hr r hproper)
  | peek k st next ih => exact fun a => ih a (hr a)
  | pause next ih => exact ih hr
  | stall => trivial

theorem ReadsNothing.confined {r : Routine I α β} (hr : r.ReadsNothing) (hP : ∀ b, P b) : r.Confined fine B P := by
  induction r with
  | done b => exact hP b
  | ask q next ih => exact fun a _ => ih a (hr a)
  | await k st next ih => exact hr.elim
  | peek k st next ih => exact hr.elim
  | pause next ih => exact ih hr
  | stall => trivial

end Routine

/-- The same of a computation, wherever it stands: if it waits for another one, then for one that is known. -/
def Position.Confined (known : Computation → Prop) (fine : (q : I.Query) → I.Answer q → Prop) (B : Failure → Prop) :
    Position I α → Prop
  | .active r => r.Confined fine B (OnlyFails B)
  | .joined other next => ∃ m, m.id = other ∧ known m ∧
      ∀ r, Proper B m.stage r → (next r).Confined fine B (OnlyFails B)
  | .paused _ r => r.Confined fine B (OnlyFails B)
  | .asleep _ r => r.Confined fine B (OnlyFails B)

theorem Position.Confined.mono {known known' : Computation → Prop} {fine : (q : I.Query) → I.Answer q → Prop}
    {B : Failure → Prop} {pos : Position I α} (h : pos.Confined known fine B) (hknown : ∀ m, known m → known' m) :
    pos.Confined known' fine B := by
  cases pos with
  | joined other next =>
    obtain ⟨m, hid, hm, hnext⟩ := h
    exact ⟨m, hid, hknown m hm, hnext⟩
  | active r => exact h
  | paused round r => exact h
  | asleep due r => exact h

theorem Proper.bind_ofStage {B : Failure → Prop} {st : Stage} {r : Except Failure (Artifact α)} (hr : Proper B st r) :
    r.bind (Artifact.ofStage st) = r := by
  cases r with
  | error e => rfl
  | ok x => exact Artifact.ofStage_eq_ok (hr.1 x rfl)

namespace Session

variable {call : Session I α → Key → Stage → Ticket α × Session I α} {H : List (Event α)} {s s' : Session I α}

/-! ### Calls -/

/-- In this move a stage is asked for, by a caller or by a computation that needs it. -/
def Calls (s : Session I α) : Move I α → Key → Stage → Prop
  | .ask j t, k, st => j = k ∧ t = st
  | .go id _, k, st => ∃ f next, s.flight? id = some f ∧ f.position = .active (.await k st next)
  | _, _, _ => False

variable (call) in
/-- Whoever calls, the same computations run then. -/
theorem Calls.running {a : Move I α} {k : Key} {st : Stage} (ha : s.Calls a k st) :
    (s.moved call a).2.usage.running = (call s k st).2.usage.running := by
  cases a with
  | ask j t =>
    obtain ⟨rfl, rfl⟩ := ha
    rfl
  | go id answer =>
    obtain ⟨f, next, hf, hpos⟩ := ha
    rw [moved_go call hf, advance, hpos]
    dsimp only
    rcases call s k st with ⟨r | other, s₁⟩
    · exact congrArg Usage.running (usage_place s₁ _ _)
    · exact congrArg Usage.running (usage_place s₁ _ _)
  | _ => exact ha.elim

/-- A ticket without an answer is of a computation of the stage that was asked for, and if there is a result later, the
computation has ended with it. -/
theorem exists_of_calls (hcall : Lawful call) (hs : Tracked H s) {a : Move I α} {k : Key} {st : Stage} (ha : s.Calls a k st)
    {id : ℕ} (hid : (call s k st).1 = .waiting id) (after : List (Move I α)) :
    ∃ m, m.id = id ∧ m.key = k ∧ m.stage = st ∧ ∀ r, (play call (a :: after) s).2.result? id = some r →
      .ended m r ∈ H ++ (play call (a :: after) s).1 ∧ ∀ x, r = .ok x → x.stage = st := by
  obtain ⟨m, rfl, hkey, rfl, hm, -⟩ := exists_of_waiting hcall hs hid
  have hlater := (hs.moved hcall a).running_play hcall after (ha.running call ▸ hm)
  have hwhole : Tracked (H ++ (play call (a :: after) s).1) (play call (a :: after) s).2 := hs.play hcall (a :: after)
  refine ⟨m, rfl, hkey, rfl, fun r hr => ?_⟩
  have hended := (hwhole.result?_iff (hlater.imp_right fun ⟨r, hr⟩ =>
    ⟨r, List.mem_append_right H (List.mem_append_right _ hr)⟩)).mp hr
  refine ⟨hended, ?_⟩
  rintro x rfl
  exact hwhole.staged m x hended

/-! ### Sessions with failures of a kind -/

/-- Who asks for a stage and is answered at once gets an artifact of it, or is refused in some way. -/
def AnswersProperly (call : Session I α → Key → Stage → Ticket α × Session I α) (refused : Failure → Prop) : Prop :=
  ∀ H s k st r, Tracked H s → (call s k st).1 = .settled r → Proper refused st r

/-- Who asks for a stage is refused in some way only, if it is refused at once, and a computation that is started for it fails
in this way only, as long as the world answers as it should. -/
def ConfinedCalls (call : Session I α → Key → Stage → Ticket α × Session I α) (fine : (q : I.Query) → I.Answer q → Prop)
    (B : Failure → Prop) : Prop :=
  AnswersProperly call B ∧ ∀ H s k st, Tracked H s → ∀ f ∈ (call s k st).2.flights,
    f ∈ s.flights ∨ ∃ r, f.position = .active r ∧ r.Confined fine B (OnlyFails B)

/-- Computations have failed in some way only, and those that run will do so too. -/
structure Confined (fine : (q : I.Query) → I.Answer q → Prop) (B : Failure → Prop) (H : List (Event α))
    (s : Session I α) : Prop where
  tracked : Tracked H s
  flights : ∀ f ∈ s.flights, f.position.Confined (Known H s) fine B
  ended : ∀ m r, .ended m r ∈ H → OnlyFails B r

/-- A computation that is known stays so. -/
theorem Known.moved (hcall : Lawful call) (hs : Tracked H s) (a : Move I α) {m : Computation} (hm : Known H s m) :
    Known (H ++ (s.moved call a).1) (s.moved call a).2 m := by
  rcases hm with hm | ⟨r, hr⟩
  · exact (hs.running_moved hcall a hm).imp_right (Exists.imp fun r hr => List.mem_append_right H hr)
  · exact .inr ⟨r, List.mem_append_left _ hr⟩

namespace Confined

variable {fine : (q : I.Query) → I.Answer q → Prop} {B : Failure → Prop}

theorem start (fine : (q : I.Query) → I.Answer q → Prop) (B : Failure → Prop) (lifetime capacity : ℕ) :
    Confined fine B [] (.start (.empty lifetime capacity) : Session I α) where
  tracked := .start lifetime capacity
  flights := nofun
  ended := nofun

theorem proper (hs : Confined fine B H s) {m : Computation} {r : Except Failure (Artifact α)} (hr : .ended m r ∈ H) :
    Proper B m.stage r := by
  refine ⟨?_, hs.ended m r hr⟩
  rintro x rfl
  exact hs.tracked.staged m x hr

/-- What there was goes on as it was. -/
theorem next (hcall : Lawful call) (hs : Confined fine B H s) {a : Move I α}
    (hflights : ∀ f ∈ (s.moved call a).2.flights, f ∈ s.flights ∨
      f.position.Confined (Known (H ++ (s.moved call a).1) (s.moved call a).2) fine B)
    (hended : ∀ m r, .ended m r ∈ (s.moved call a).1 → OnlyFails B r) :
    Confined fine B (H ++ (s.moved call a).1) (s.moved call a).2 where
  tracked := hs.tracked.moved hcall a
  flights := fun f hf => (hflights f hf).elim
    (fun hold => (hs.flights f hold).mono fun _ => Known.moved hcall hs.tracked a) id
  ended := fun m e he => (List.mem_append.mp he).elim (hs.ended m e) (hended m e)

/-- A computation goes on from where a call has left the session. -/
theorem flights_place (hids : (s'.usage.running.map Computation.id).Nodup) {f : Flight I α} (hf : f ∈ s'.flights)
    {known : Computation → Prop} (pos : Position I α) (hpos : pos.Confined known fine B)
    (hs' : ∀ g ∈ s'.flights, g ∈ s.flights ∨ ∃ r, g.position = .active r ∧ r.Confined fine B (OnlyFails B)) :
    ∀ g ∈ (s'.place f.computation.id pos).flights, g ∈ s.flights ∨ g.position.Confined known fine B := by
  intro g hg
  rcases flights_place_cases hids hf hg with rfl | ⟨hold, -⟩
  · exact .inr hpos
  · refine (hs' g hold).imp_right ?_
    rintro ⟨r, hr, hconfined⟩
    rw [hr]
    exact hconfined

variable (hcall : Lawful call) (hcalls : ConfinedCalls call fine B)

include hcall hcalls

/-- A computation that asks for a stage goes on so: with what it is served, or behind a computation that runs then. -/
theorem flights_await (hs : Confined fine B H s) {f : Flight I α} (hf : f ∈ s.flights)
    (answer : (q : I.Query) → Response (I.Answer q)) {k : Key} {st : Stage}
    {next : Except Failure (Artifact α) → Routine I α (Made α)} (hpos : f.position = .active (.await k st next)) :
    ∀ g ∈ (s.advance call f answer).2.flights, g ∈ s.flights ∨
      g.position.Confined (fun m => Known H s m ∨ m ∈ (s.advance call f answer).2.usage.running) fine B := by
  have hconfined := hs.flights f hf
  have hcalled := hcall s k st hs.tracked.valid
  have hids := (hs.tracked.called hcalled).valid.ids
  have hproper := fun r => hcalls.1 H s k st r hs.tracked
  have hstarted := hcalls.2 H s k st hs.tracked
  rw [hpos] at hconfined
  simp only [advance, hpos]
  rcases hc : call s k st with ⟨r | other, s₁⟩
  · rw [hc] at hcalled hids hproper hstarted
    exact flights_place hids (hcalled.flights f hf) (.active (next r)) (hconfined r (hproper r rfl)) hstarted
  · obtain ⟨m, hid, -, rfl, hm, -⟩ := exists_of_waiting hcall hs.tracked (congrArg Prod.fst hc)
    rw [hc] at hcalled hids hstarted hm
    refine flights_place hids (hcalled.flights f hf) _ ⟨m, hid, .inr ?_, fun r hr => ?_⟩ hstarted
    · rwa [usage_place]
    · beta_reduce
      rw [hr.bind_ofStage]
      exact hconfined r hr

/-- A computation that is taken further goes on so. -/
theorem flights_advance (hs : Confined fine B H s) {f : Flight I α} (hf : f ∈ s.flights)
    {answer : (q : I.Query) → Response (I.Answer q)} (hanswer : ∀ q a, (answer q).value? = some a → fine q a) :
    ∀ g ∈ (s.advance call f answer).2.flights, g ∈ s.flights ∨
      g.position.Confined (fun m => Known H s m ∨ m ∈ (s.advance call f answer).2.usage.running) fine B := by
  have hids := hs.tracked.valid.ids
  have hold : ∀ g ∈ s.flights, g ∈ s.flights ∨ ∃ r, g.position = .active r ∧ r.Confined fine B (OnlyFails B) :=
    fun g hg => .inl hg
  have hconfined := hs.flights f hf
  cases hpos : f.position with
  | active r =>
    cases r with
    | await k st next => exact hs.flights_await hcall hcalls hf answer hpos
    | done r =>
      rw [advance, hpos]
      exact fun g hg => .inl (List.mem_of_mem_filter hg)
    | ask q next =>
      have hgiven := hanswer q
      rw [hpos] at hconfined
      simp only [advance, hpos]
      rcases ha : answer q with a | ⟨wait, a⟩ | _ <;> rw [ha] at hgiven
      · exact flights_place hids hf (.active (next a)) (hconfined a (hgiven a rfl)) hold
      · exact flights_place hids hf (.asleep _ (next a)) (hconfined a (hgiven a rfl)) hold
      · exact fun g hg => .inl hg
    | peek k st next =>
      have hids' : ((s.peek k st).2.usage.running.map Computation.id).Nodup := hids
      rw [hpos] at hconfined
      rw [advance, hpos]
      exact flights_place hids' hf (.active (next _)) (hconfined _) hold
    | pause next =>
      rw [hpos] at hconfined
      rw [advance, hpos]
      exact flights_place hids hf (.paused s.round next) hconfined hold
    | stall =>
      rw [advance, hpos]
      exact fun g hg => .inl hg
  | joined other next =>
    rw [hpos] at hconfined
    obtain ⟨m, rfl, hm, hnext⟩ := hconfined
    simp only [advance, hpos]
    rcases hr : s.result? m.id with _ | r
    · exact fun g hg => .inl hg
    · exact flights_place hids hf (.active (next r)) (hnext r (hs.proper ((hs.tracked.result?_iff hm).mp hr))) hold
  | paused round r =>
    rw [hpos] at hconfined
    rw [advance, hpos]
    exact flights_place hids hf (.active r) hconfined hold
  | asleep due r =>
    rw [hpos] at hconfined
    rw [advance, hpos]
    exact flights_place hids hf (.active r) hconfined hold

omit hcall hcalls in
theorem ended_advance (hs : Confined fine B H s) {f : Flight I α} (hf : f ∈ s.flights)
    (answer : (q : I.Query) → Response (I.Answer q)) {m : Computation} {r : Except Failure (Artifact α)}
    (hr : .ended m r ∈ (s.advance call f answer).1) : OnlyFails B r := by
  have hprogress := progress_advance call s f answer
  generalize (s.advance call f answer).1 = E at hr hprogress
  generalize f.asked answer = qs at hprogress
  generalize (s.advance call f answer).2 = s' at hprogress
  cases hprogress with
  | ends made hpos =>
    obtain ⟨-, rfl⟩ := Event.ended.inj (List.mem_singleton.mp hr)
    have hconfined := hs.flights f hf
    rw [hpos] at hconfined
    intro e he
    cases made with
    | error e' => exact hconfined e (congrArg Except.error (Except.error.inj he))
    | ok x => cases he
  | isServed k st next hpos r' s₁ hc => cases List.mem_singleton.mp hr
  | looks k st next hpos => cases List.mem_singleton.mp hr
  | isTold other next hpos r' hr' => cases List.mem_singleton.mp hr
  | _ => cases hr

theorem moved (hs : Confined fine B H s) {a : Move I α} (ha : a.Serves fine) :
    Confined fine B (H ++ (s.moved call a).1) (s.moved call a).2 := by
  have hquiet : ∀ m r, .ended m r ∈ ([] : List (Event α)) → OnlyFails B r := fun m r h => absurd h List.not_mem_nil
  cases a with
  | ask k st =>
    refine hs.next hcall (fun f hf => ?_) hquiet
    refine (hcalls.2 H s k st hs.tracked f hf).imp_right ?_
    rintro ⟨r, hr, hconfined⟩
    rw [hr]
    exact hconfined
  | go id answer =>
    rcases hf : s.flight? id with _ | f
    · simpa [Session.moved, hf] using hs
    · have hmem : f ∈ s.flights := List.mem_of_find?_eq_some hf
      have hmoved := moved_go call hf answer
      refine hs.next hcall (fun g hg => ?_) fun m r hr => ?_
      · rw [hmoved] at hg
        refine (hs.flights_advance hcall hcalls hmem ha g hg).imp_right fun h => h.mono fun m hm => ?_
        rcases hm with hm | hm
        · exact hm.moved hcall hs.tracked _
        · rw [← hmoved] at hm
          exact .inl hm
      · rw [hmoved] at hr
        exact hs.ended_advance hmem answer hr
  | insert k v =>
    refine hs.next hcall (fun f hf => .inl hf) fun m r hr => ?_
    cases List.mem_singleton.mp hr
  | _ => exact hs.next hcall (fun f hf => .inl hf) hquiet

theorem play (hs : Confined fine B H s) {moves : List (Move I α)} (hmoves : ∀ a ∈ moves, a.Serves fine) :
    Confined fine B (H ++ (Session.play call moves s).1) (Session.play call moves s).2 :=
  play_keeps call (P := Confined fine B) moves (fun _ _ a ha ht => ht.moved hcall hcalls (hmoves a ha)) hs

end Confined

/-! ### What is told -/

/-- How stages are kept apart in a session, whatever moves are made. -/
structure Checked (call : Session I α → Key → Stage → Ticket α × Session I α) (refused : Failure → Prop)
    (c : Cache α) : Prop where
  /-- The cache keeps stages apart. -/
  staging : ∀ moves, Staging (play call moves (.start c)).2.usage
  /-- Who is answered at once gets an artifact of the stage, or is refused in some way. -/
  settled : ∀ before k st r, let s := (play call before (.start c)).2
    (call s k st).1 = .settled r → Proper refused st r
  /-- Who waits for a stage waits for a computation of it. What is told later is the result of this computation, since the
  check of the stage changes nothing about that; and this is what the computation has ended with. -/
  waiting : ∀ before a after k st id, let s := (play call before (.start c)).2
    let whole := play call (before ++ a :: after) (.start c)
    s.Calls a k st → (call s k st).1 = .waiting id → whole.2.told? st (.waiting id) = whole.2.result? id ∧
      ∃ m, m.id = id ∧ m.key = k ∧ m.stage = st ∧
        ∀ r, whole.2.result? id = some r → .ended m r ∈ whole.1 ∧ ∀ x, r = .ok x → x.stage = st

/-- As long as the world answers as it should, whoever asks for a stage is told of an artifact of it or of a failure of some
kind, if anything. -/
def Tells (call : Session I α → Key → Stage → Ticket α × Session I α) (fine : (q : I.Query) → I.Answer q → Prop)
    (B : Failure → Prop) (c : Cache α) : Prop :=
  ∀ before a after k st r, (∀ b ∈ before ++ a :: after, b.Serves fine) →
    let s := (play call before (.start c)).2
    s.Calls a k st → (play call (before ++ a :: after) (.start c)).2.told? st (call s k st).1 = some r → Proper B st r

theorem told?_waiting_of_proper {B : Failure → Prop} {st : Stage} {id : ℕ}
    (h : ∀ r, s.result? id = some r → Proper B st r) : s.told? st (.waiting id) = s.result? id := by
  rw [told?_waiting]
  rcases hr : s.result? id with _ | r
  · rfl
  · exact congrArg some (h r hr).bind_ofStage

theorem checked (hcall : Lawful call) {refused : Failure → Prop} (hanswers : AnswersProperly call refused)
    (lifetime capacity : ℕ) : Checked call refused (.empty lifetime capacity) where
  staging := by
    intro moves
    obtain ⟨acts, hacts⟩ := (Tracked.start lifetime capacity).exists_run_play hcall moves
    rw [hacts]
    exact staging_run lifetime capacity acts
  settled := fun before k st r hr => hanswers _ _ k st r ((Tracked.start lifetime capacity).play hcall before) hr
  waiting := by
    intro before a after k st id s whole ha hid
    have hs : Tracked _ s := (Tracked.start lifetime capacity).play hcall before
    obtain ⟨m, hm, hkey, hstage, hended⟩ := exists_of_calls hcall hs ha hid after
    obtain ⟨hstory, hsession⟩ : whole.1 = (play call before (.start (.empty lifetime capacity))).1 ++
        (play call (a :: after) s).1 ∧ whole.2 = (play call (a :: after) s).2 :=
      Prod.ext_iff.mp (play_append call before (a :: after) _)
    rw [List.nil_append, ← hstory, ← hsession] at hended
    exact ⟨told?_waiting_of_proper (B := fun _ => True) fun r hr => ⟨(hended r hr).2, fun _ _ => trivial⟩,
      m, hm, hkey, hstage, hended⟩

theorem tells (hcall : Lawful call) {fine : (q : I.Query) → I.Answer q → Prop} {B : Failure → Prop}
    (hcalls : ConfinedCalls call fine B) (lifetime capacity : ℕ) : Tells call fine B (.empty lifetime capacity) := by
  intro before a after k st r hserves s ha htold
  have hwhole := (Confined.start fine B lifetime capacity).play hcall hcalls hserves
  have hchecked := checked hcall hcalls.1 lifetime capacity
  rcases ht : (call s k st).1 with r' | id <;> rw [ht] at htold
  · obtain rfl := Option.some.inj htold
    exact hchecked.settled before k st r' ht
  · obtain ⟨hsame, m, rfl, -, rfl, hended⟩ := hchecked.waiting before a after k st id ha ht
    rw [hsame] at htold
    exact Confined.proper hwhole (hended r htold).1

/-! ### Callers with computations of their own -/

section

variable (work : Session I α → Key → (st : Stage) → Routine I α (Yield α st))

theorem answersProperly_callWith : AnswersProperly (callWith work) fun _ => False := by
  intro H s k st r hs hr
  obtain ⟨x, rfl, hx⟩ := exists_of_enter_settled hs.valid hr
  exact ⟨fun y hy => Except.ok.inj hy ▸ hx, nofun⟩

/-- The failure that a computation of a stage yields, if it does, is of some kind. -/
def YieldFails (B : Failure → Prop) {st : Stage} (y : Yield α st) : Prop := ∀ e, y = .failure e → B e

variable {work}

theorem confinedCalls_callWith {fine : (q : I.Query) → I.Answer q → Prop} {B : Failure → Prop}
    (hwork : ∀ s k st, (work s k st).Confined fine B (YieldFails B)) : ConfinedCalls (callWith work) fine B := by
  refine ⟨fun H s k st r hs hr => ?_, fun H s k st hs f hf => ?_⟩
  · exact (answersProperly_callWith work H s k st r hs hr).imp_right fun h e he => (h e he).elim
  · refine (mem_flights_enter.mp hf).imp_right fun hnew => ⟨_, hnew.2, (hwork s k st).bind fun y hy => ?_⟩
    intro e he
    cases y with
    | failure e' => exact hy e (congrArg Yield.failure (Except.error.inj he))
    | value v sources hv => cases he

end

end Session

end ContractMigration
