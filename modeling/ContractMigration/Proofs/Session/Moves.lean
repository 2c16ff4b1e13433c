import ContractMigration.Proofs.Cache.Usage
import ContractMigration.Proofs.Session.Reading
import ContractMigration.Session.Drive

/-! A session in the hands of the world. Callers ask for stages, the cache is used in every other way, time passes, and
computations are taken further one move at a time, in any order and with any answers; between two moves of a computation
anything can be done. The story of a session tells what each computation read, how it ended, and what was inserted. -/

namespace ContractMigration.Session

/-- What can be done with a session. A computation that asks the world goes on with what `answer` says. Who the callers
are, what they know, and when alarms go off and rounds begin is up to those who lead the session. -/
inductive Move (I : Interface) (α : Type)
  | ask (k : Key) (s : Stage)
  | go (id : ℕ) (answer : (q : I.Query) → Response (I.Answer q))
  | insert (k : Key) (v : α)
  | invalidate (k : Key) (s : Stage)
  | clear
  | peek (k : Key) (s : Stage)
  | contains (k : Key) (s : Stage)
  | wait (time : ℕ)
  | attend (callers : List (Caller α)) (rung round : ℕ)

/-- What is told of a session. -/
inductive Event (α : Type)
  | read (id : ℕ) (r : Read α)
  | ended (m : Computation) (r : Except Failure (Artifact α))
  | inserted (k : Key) (a : Artifact α)

/-- The computation that has ended, with its result, if that is what is told. -/
def Event.ending? {α : Type} : Event α → Option (Computation × Except Failure (Artifact α))
  | .ended m r => some (m, r)
  | _ => none

section Reads

variable {α : Type}

/-- What a computation has read, in order. -/
def reads (h : List (Event α)) (id : ℕ) : List (Read α) :=
  h.filterMap fun
    | .read i r => if i = id then some r else none
    | _ => none

@[simp] theorem reads_nil (id : ℕ) : reads ([] : List (Event α)) id = [] := rfl

@[simp] theorem reads_append (h h' : List (Event α)) (id : ℕ) : reads (h ++ h') id = reads h id ++ reads h' id :=
  List.filterMap_append

@[simp] theorem reads_read (i id : ℕ) (r : Read α) : reads [.read i r] id = if i = id then [r] else [] := by
  by_cases h : i = id <;> simp [reads, h]

@[simp] theorem reads_ended (m : Computation) (r : Except Failure (Artifact α)) (id : ℕ) :
    reads [.ended m r] id = [] := rfl

theorem reads_eq_nil {h : List (Event α)} {id : ℕ} (hn : ∀ r, .read id r ∉ h) : reads h id = [] := by
  rw [reads, List.filterMap_eq_nil_iff]
  intro e he
  cases e with
  | read i r =>
    by_cases hi : i = id
    · subst hi
      exact absurd he (hn r)
    · simp [hi]
  | _ => rfl

end Reads

variable {I : Interface} {α : Type} [Staged α]

/-- The cache of a session with the computations that run. -/
def usage (s : Session I α) : Usage α := ⟨s.cache, s.flights.map Flight.computation, s.now⟩

omit [Staged α] in
theorem mem_running {s : Session I α} {f : Flight I α} (hf : f ∈ s.flights) : f.computation ∈ s.usage.running :=
  List.mem_map_of_mem hf

omit [Staged α] in
theorem usage_place (s : Session I α) (id : ℕ) (p : Position I α) : (s.place id p).usage = s.usage := by
  have hflights : (s.place id p).flights.map Flight.computation = s.flights.map Flight.computation := by
    rw [place, List.map_map]
    refine List.map_congr_left fun f _ => ?_
    rw [Function.comp_apply]
    split_ifs <;> rfl
  exact congrArg (fun l => (⟨s.cache, l, s.now⟩ : Usage α)) hflights

omit [Staged α] in
theorem mem_flights_place {s : Session I α} {id : ℕ} {p : Position I α} {f' : Flight I α}
    (hf' : f' ∈ (s.place id p).flights) :
    ∃ f ∈ s.flights, f'.computation = f.computation ∧
      (f.computation.id = id ∧ f'.position = p ∨ f.computation.id ≠ id ∧ f' = f) := by
  obtain ⟨f, hf, rfl⟩ := List.mem_map.mp hf'
  refine ⟨f, hf, ?_⟩
  by_cases hid : f.computation.id = id
  · rw [if_pos hid]
    exact ⟨rfl, .inl ⟨hid, rfl⟩⟩
  · rw [if_neg hid]
    exact ⟨rfl, .inr ⟨hid, rfl⟩⟩

omit [Staged α] in
/-- Where running computations have different numbers, one of them is moved. -/
theorem flights_place_cases {s : Session I α} (hids : (s.usage.running.map Computation.id).Nodup) {f : Flight I α}
    (hf : f ∈ s.flights) {p : Position I α} {f' : Flight I α} (hf' : f' ∈ (s.place f.computation.id p).flights) :
    f' = ⟨f.computation, p⟩ ∨ f' ∈ s.flights ∧ f'.computation.id ≠ f.computation.id := by
  obtain ⟨g, hg, hc, ⟨hid, hpos⟩ | ⟨hid, rfl⟩⟩ := mem_flights_place hf'
  · have hsame : g.computation = f.computation := List.inj_on_of_nodup_map hids (mem_running hg) (mem_running hf) hid
    obtain ⟨m, pos⟩ := f'
    exact .inl (congrArg₂ Flight.mk (hc.trans hsame) hpos)
  · exact .inr ⟨hg, hid⟩

/-- Where running computations have different numbers, one of them ends. -/
theorem usage_land {s : Session I α} (hids : (s.usage.running.map Computation.id).Nodup) {f : Flight I α}
    (hf : f ∈ s.flights) (r : Yield α f.computation.stage) :
    (s.land f.computation r.made).usage = s.usage.step (.finish f.computation r) := by
  have hrunning : (s.flights.filter fun g => g.computation.id != f.computation.id).map Flight.computation =
      s.usage.running.filter (· ≠ f.computation) := by
    rw [usage, List.filter_map]
    refine congrArg _ (List.filter_congr fun g hg => ?_)
    have hiff : g.computation.id = f.computation.id ↔ g.computation = f.computation :=
      ⟨List.inj_on_of_nodup_map hids (mem_running hg) (mem_running hf), congrArg Computation.id⟩
    rw [Function.comp_apply, Bool.eq_iff_iff, bne_iff_ne, decide_eq_true_iff, ne_eq, ne_eq, hiff]
  rw [Usage.step, if_pos (mem_running hf), ← hrunning]
  rfl

variable (call : Session I α → Key → Stage → Ticket α × Session I α)

/-- Takes a computation one move further, if it can go on. -/
def advance (s : Session I α) (f : Flight I α) (answer : (q : I.Query) → Response (I.Answer q)) :
    List (Event α) × Session I α :=
  let id := f.computation.id
  match f.position with
  | .active (.done r) => ([.ended f.computation (s.cache.complete s.now f.computation r).1], s.land f.computation r)
  | .active (.ask q next) => match answer q with
    | .ready a => ([], s.place id (.active (next a)))
    | .later wait a => ([], s.place id (.asleep (s.now + wait) (next a)))
    | .blocked => ([], s)
  | .active (.await k st next) => match call s k st with
    | (.settled r, s) => ([.read id (.received r)], s.place id (.active (next r)))
    | (.waiting other, s) => ([], s.place id (.joined other fun r => next (r.bind (Artifact.ofStage st))))
  | .active (.peek k st next) =>
    let (a, s) := s.peek k st
    ([.read id (.looked k st a)], s.place id (.active (next a)))
  | .active (.pause next) => ([], s.place id (.paused s.round next))
  | .active .stall => ([], s)
  | .joined other next => match s.result? other with
    | some r => ([.read id (.received r)], s.place id (.active (next r)))
    | none => ([], s)
  | .paused _ r => ([], s.place id (.active r))
  | .asleep _ r => ([], s.place id (.active r))

/-- Makes a move, and tells what happened. -/
def moved (s : Session I α) : Move I α → List (Event α) × Session I α
  | .ask k st => ([], (call s k st).2)
  | .go id answer => match s.flight? id with
    | some f => s.advance call f answer
    | none => ([], s)
  | .insert k v => ([.inserted k (s.cache.insert s.now k v).1], { s with cache := (s.cache.insert s.now k v).2 })
  | .invalidate k st => ([], { s with cache := (s.cache.invalidate k st).2 })
  | .clear => ([], { s with cache := s.cache.clear })
  | .peek k st => ([], (s.peek k st).2)
  | .contains k st => ([], { s with cache := (s.cache.contains s.now k st).2 })
  | .wait time => ([], { s with now := s.now + time })
  | .attend callers rung round => ([], { s with callers := callers, rung := rung, round := round })

/-- Makes one move after the other: the story, and what it comes to. -/
def play : List (Move I α) → Session I α → List (Event α) × Session I α
  | [], s => ([], s)
  | a :: rest, s => ((s.moved call a).1 ++ (play rest (s.moved call a).2).1, (play rest (s.moved call a).2).2)

/-- What each move keeps, together with what has happened so far, holds at the end. -/
theorem play_invariant {P : List (Event α) → Session I α → Prop}
    (hstep : ∀ h s a, P h s → P (h ++ (s.moved call a).1) (s.moved call a).2) (moves : List (Move I α))
    {h : List (Event α)} {s : Session I α} (hs : P h s) : P (h ++ (play call moves s).1) (play call moves s).2 := by
  induction moves generalizing h s with
  | nil => simpa [play] using hs
  | cons a rest ih =>
    rw [play, ← List.append_assoc]
    exact ih (hstep h s a hs)

end ContractMigration.Session
