import ContractMigration.Proofs.Session.Moves

/-! What can happen when a computation is taken further: one case for each way it can go on. Whatever holds of a session
after each of them holds after every move of a computation. -/

namespace ContractMigration

variable {I : Interface} {α : Type}

/-- How a computation goes on without a stage or the cache: with an answer of the world, or after a break. The last part
tells which question was answered. -/
inductive Position.Goes : Position I α → Position I α → List I.Query → Prop
  | answered (q : I.Query) (next : I.Answer q → Routine I α (Made α)) (a : I.Answer q) :
      Goes (.active (.ask q next)) (.active (next a)) [q]
  | delayed (q : I.Query) (next : I.Answer q → Routine I α (Made α)) (a : I.Answer q) (due : ℕ) :
      Goes (.active (.ask q next)) (.asleep due (next a)) [q]
  | paused (round : ℕ) (next : Routine I α (Made α)) : Goes (.active (.pause next)) (.paused round next) []
  | resumed (round : ℕ) (r : Routine I α (Made α)) : Goes (.paused round r) (.active r) []
  | woken (due : ℕ) (r : Routine I α (Made α)) : Goes (.asleep due r) (.active r) []

/-- Nobody comes to wait for another computation by itself. -/
theorem Position.Goes.ne_joined {p p' : Position I α} {qs : List I.Query} (h : p.Goes p' qs) (other : ℕ)
    (next : Except Failure (Artifact α) → Routine I α (Made α)) : p' ≠ .joined other next := by
  cases h <;> exact nofun

/-- What a computation still meets when it goes on by itself. -/
theorem Position.Goes.meets [Staged α] {Q : List (Read α) → Made α → Prop} {reads : List (Read α)}
    {p p' : Position I α} {qs : List I.Query} (h : p.Goes p' qs) (hp : p.Meets Q reads) : p'.Meets Q reads := by
  cases h with
  | answered q next a => exact hp a
  | delayed q next a due => exact hp a
  | paused round next => exact hp
  | resumed round r => exact hp
  | woken due r => exact hp

/-- The question of a computation that is answered in a move. -/
def Flight.asked (f : Flight I α) (answer : (q : I.Query) → Response (I.Answer q)) : List I.Query :=
  match f.position with
  | .active (.ask q _) => match answer q with
    | .blocked => []
    | _ => [q]
  | _ => []

/-- The question that a computation wants to be answered. -/
def Flight.question? (f : Flight I α) : Option I.Query :=
  match f.position with
  | .active (.ask q _) => some q
  | _ => none

/-- The questions that are not answered. -/
def Session.pending (s : Session I α) : List I.Query := s.flights.filterMap Flight.question?

namespace Session

variable [Staged α] (call : Session I α → Key → Stage → Ticket α × Session I α)

/-- The questions that are answered in a move. -/
def asked (s : Session I α) : Move I α → List I.Query
  | .go id answer => match s.flight? id with
    | some f => f.asked answer
    | none => []
  | _ => []

/-- The questions that are answered in the course of a session, in order. -/
def inquiries : List (Move I α) → Session I α → List I.Query
  | [], _ => []
  | a :: rest, s => s.asked a ++ inquiries rest (s.moved call a).2

/-- What can happen when a computation is taken further, with what is told and which questions are answered. -/
inductive Progress (s : Session I α) (f : Flight I α) : List (Event α) → List I.Query → Session I α → Prop
  | stays : Progress s f [] [] s
  | ends (r : Made α) (hpos : f.position = .active (.done r)) :
      Progress s f [.ended f.computation (s.cache.complete s.now f.computation r).1] [] (s.land f.computation r)
  | goesOn (p : Position I α) (qs : List I.Query) (h : f.position.Goes p qs) :
      Progress s f [] qs (s.place f.computation.id p)
  | isServed (k : Key) (st : Stage) (next : Except Failure (Artifact α) → Routine I α (Made α))
      (hpos : f.position = .active (.await k st next)) (r : Except Failure (Artifact α)) (s' : Session I α)
      (hcall : call s k st = (.settled r, s')) :
      Progress s f [.read f.computation.id (.received r)] [] (s'.place f.computation.id (.active (next r)))
  | waits (k : Key) (st : Stage) (next : Except Failure (Artifact α) → Routine I α (Made α))
      (hpos : f.position = .active (.await k st next)) (other : ℕ) (s' : Session I α)
      (hcall : call s k st = (.waiting other, s')) :
      Progress s f [] [] (s'.place f.computation.id (.joined other fun r => next (r.bind (Artifact.ofStage st))))
  | looks (k : Key) (st : Stage) (next : Option (Artifact α) → Routine I α (Made α))
      (hpos : f.position = .active (.peek k st next)) :
      Progress s f [.read f.computation.id (.looked k st (s.peek k st).1)] []
        ((s.peek k st).2.place f.computation.id (.active (next (s.peek k st).1)))
  | isTold (other : ℕ) (next : Except Failure (Artifact α) → Routine I α (Made α))
      (hpos : f.position = .joined other next) (r : Except Failure (Artifact α)) (hr : s.result? other = some r) :
      Progress s f [.read f.computation.id (.received r)] [] (s.place f.computation.id (.active (next r)))

theorem progress_advance (s : Session I α) (f : Flight I α) (answer : (q : I.Query) → Response (I.Answer q)) :
    Progress call s f (s.advance call f answer).1 (f.asked answer) (s.advance call f answer).2 := by
  rw [advance, Flight.asked]
  cases hpos : f.position with
  | active r =>
    cases r with
    | done r => exact .ends r hpos
    | ask q next =>
      dsimp only
      cases answer q with
      | ready a => exact .goesOn _ _ (hpos ▸ .answered q next a)
      | later wait a => exact .goesOn _ _ (hpos ▸ .delayed q next a _)
      | blocked => exact .stays
    | await k st next =>
      dsimp only
      rcases hc : call s k st with ⟨r | other, s'⟩
      · exact .isServed k st next hpos r s' hc
      · exact .waits k st next hpos other s' hc
    | peek k st next => exact .looks k st next hpos
    | pause next => exact .goesOn _ [] (by rw [hpos]; exact .paused s.round next)
    | stall => exact .stays
  | joined other next =>
    dsimp only
    rcases hr : s.result? other with _ | r
    · exact .stays
    · exact .isTold other next hpos r hr
  | paused round r => exact .goesOn _ [] (by rw [hpos]; exact .resumed round r)
  | asleep due r => exact .goesOn _ [] (by rw [hpos]; exact .woken due r)

section Positions

variable {call} {s s' : Session I α} {f : Flight I α} {E : List (Event α)} {qs : List I.Query}

/-- A computation that is done ends. -/
theorem Progress.of_done (h : Progress call s f E qs s') {r : Made α} (hpos : f.position = .active (.done r)) :
    s' = s ∨ s' = s.land f.computation r := by
  cases h with
  | stays => exact .inl rfl
  | ends r' hpos' =>
    obtain rfl := Routine.done.inj (Position.active.inj (hpos'.symm.trans hpos))
    exact .inr rfl
  | goesOn p qs hgo =>
    rw [hpos] at hgo
    cases hgo
  | isServed k st next hpos' => cases hpos'.symm.trans hpos
  | waits k st next hpos' => cases hpos'.symm.trans hpos
  | looks k st next hpos' => cases hpos'.symm.trans hpos
  | isTold other next hpos' => cases hpos'.symm.trans hpos

/-- A computation that asks for a stage is served, or waits for another one. -/
theorem Progress.of_await (h : Progress call s f E qs s') {k : Key} {st : Stage}
    {next : Except Failure (Artifact α) → Routine I α (Made α)} (hpos : f.position = .active (.await k st next)) :
    s' = s ∨
    (∃ r s₁, call s k st = (.settled r, s₁) ∧ s' = s₁.place f.computation.id (.active (next r))) ∨
    ∃ other s₁, call s k st = (.waiting other, s₁) ∧
      s' = s₁.place f.computation.id (.joined other fun r => next (r.bind (Artifact.ofStage st))) := by
  cases h with
  | stays => exact .inl rfl
  | isServed k' st' next' hpos' r s₁ hc =>
    obtain ⟨rfl, rfl, rfl⟩ := Routine.await.inj (Position.active.inj (hpos'.symm.trans hpos))
    exact .inr (.inl ⟨r, s₁, hc, rfl⟩)
  | waits k' st' next' hpos' other s₁ hc =>
    obtain ⟨rfl, rfl, rfl⟩ := Routine.await.inj (Position.active.inj (hpos'.symm.trans hpos))
    exact .inr (.inr ⟨other, s₁, hc, rfl⟩)
  | goesOn p qs hgo =>
    rw [hpos] at hgo
    cases hgo
  | ends r hpos' => cases hpos'.symm.trans hpos
  | looks k st next hpos' => cases hpos'.symm.trans hpos
  | isTold other next hpos' => cases hpos'.symm.trans hpos

/-- A computation that waits for another one goes on with what that has ended with. -/
theorem Progress.of_joined (h : Progress call s f E qs s') {other : ℕ}
    {next : Except Failure (Artifact α) → Routine I α (Made α)} (hpos : f.position = .joined other next) :
    s' = s ∨ ∃ r, s.result? other = some r ∧ s' = s.place f.computation.id (.active (next r)) := by
  cases h with
  | stays => exact .inl rfl
  | isTold other' next' hpos' r hr =>
    obtain ⟨rfl, rfl⟩ := Position.joined.inj (hpos'.symm.trans hpos)
    exact .inr ⟨r, hr, rfl⟩
  | goesOn p qs hgo =>
    rw [hpos] at hgo
    cases hgo
  | ends r hpos' => cases hpos'.symm.trans hpos
  | isServed k st next hpos' => cases hpos'.symm.trans hpos
  | waits k st next hpos' => cases hpos'.symm.trans hpos
  | looks k st next hpos' => cases hpos'.symm.trans hpos

end Positions

/-- A move of a computation is progress of one that is there, or nothing happens. -/
theorem progress_go (s : Session I α) (id : ℕ) (answer : (q : I.Query) → Response (I.Answer q)) :
    (∃ f ∈ s.flights, f.computation.id = id ∧
      Progress call s f (s.moved call (.go id answer)).1 (s.asked (.go id answer)) (s.moved call (.go id answer)).2) ∨
    s.moved call (.go id answer) = ([], s) ∧ s.asked (.go id answer) = [] := by
  rw [moved, asked]
  rcases hf : s.flight? id with _ | f
  · exact .inr ⟨rfl, rfl⟩
  · have hid : f.computation.id = id := by simpa using List.find?_some hf
    exact .inl ⟨f, List.mem_of_find?_eq_some hf, hid, progress_advance call s f answer⟩

/-- What each move keeps, together with what was told and asked so far, holds at the end. -/
theorem play_inquiries_invariant {P : List (Event α) → List I.Query → Session I α → Prop} (moves : List (Move I α))
    (hstep : ∀ H qs s, ∀ a ∈ moves, P H qs s → P (H ++ (s.moved call a).1) (qs ++ s.asked a) (s.moved call a).2)
    {H : List (Event α)} {qs : List I.Query} {s : Session I α} (hs : P H qs s) :
    P (H ++ (play call moves s).1) (qs ++ inquiries call moves s) (play call moves s).2 := by
  induction moves generalizing H qs s with
  | nil => simpa [play, inquiries] using hs
  | cons a rest ih =>
    rw [play, inquiries, ← List.append_assoc, ← List.append_assoc]
    exact ih (fun H qs s b hb => hstep H qs s b (List.mem_cons_of_mem _ hb)) (hstep H qs s a List.mem_cons_self hs)

/-- The same without what was asked. -/
theorem play_keeps {P : List (Event α) → Session I α → Prop} (moves : List (Move I α))
    (hstep : ∀ H s, ∀ a ∈ moves, P H s → P (H ++ (s.moved call a).1) (s.moved call a).2)
    {H : List (Event α)} {s : Session I α} (hs : P H s) : P (H ++ (play call moves s).1) (play call moves s).2 :=
  @play_inquiries_invariant I α _ call (fun H _ s => P H s) moves (fun H _ s => hstep H s) H [] s hs

theorem play_append (p q : List (Move I α)) (s : Session I α) :
    play call (p ++ q) s = ((play call p s).1 ++ (play call q (play call p s).2).1, (play call q (play call p s).2).2) := by
  induction p generalizing s with
  | nil => rfl
  | cons a rest ih => rw [List.cons_append, play, ih, play, List.append_assoc]

end Session

end ContractMigration
