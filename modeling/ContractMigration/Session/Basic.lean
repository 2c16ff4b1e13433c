import ContractMigration.Session.Routine

/-! Callers that share computations. Whoever asks for a stage is served from the cache or gets a ticket for a computation;
all tickets for one computation are settled by its one result. Each move takes one computation one step further, in
whatever order the moves are made. -/

namespace ContractMigration

/-- What a computation yields: a value with the artifacts it was made from, or a failure. -/
abbrev Made (α : Type) := Except Failure (α × List (Artifact α))

/-- Where a computation stands: it can go on, it waits for another one, it lets others go first in a round, or it goes on
at a time. -/
inductive Position (I : Interface) (α : Type)
  | active (r : Routine I α (Made α))
  | joined (id : Nat) (next : Except Failure (Artifact α) → Routine I α (Made α))
  | paused (round : Nat) (r : Routine I α (Made α))
  | asleep (due : Nat) (r : Routine I α (Made α))

/-- A computation that is not finished. -/
structure Flight (I : Interface) (α : Type) where
  computation : Computation
  position : Position I α

/-- What a caller holds: the answer, or the number of the computation it waits for. -/
inductive Ticket (α : Type)
  | settled (r : Except Failure (Artifact α))
  | waiting (id : Nat)

/-- Someone who asked for a stage; `started` if a computation was started for it. -/
structure Caller (α : Type) where
  name : String
  stage : Stage
  started : Bool
  ticket : Ticket α

/-- The answer a caller has got. -/
def Caller.answer? {α : Type} (c : Caller α) : Option (Except Failure (Artifact α)) :=
  match c.ticket with
  | .settled r => some r
  | .waiting _ => none

/-- A cache in use: the computations that are not finished, the results of those that are, and the callers. Alarms have
gone off up to the time `rung`, which lags behind `now` after the clock has jumped. -/
structure Session (I : Interface) (α : Type) where
  cache : Cache α
  flights : List (Flight I α)
  results : List (Nat × Except Failure (Artifact α))
  callers : List (Caller α)
  now : Nat
  rung : Nat
  round : Nat
  moves : Nat

namespace Session

variable {I : Interface} {α : Type} [Staged α]

/-- A session in which nothing was asked for yet. -/
def start (c : Cache α) : Session I α := ⟨c, [], [], [], 0, 0, 0, 0⟩

def flight? (s : Session I α) (id : Nat) : Option (Flight I α) := s.flights.find? fun f => f.computation.id == id

def result? (s : Session I α) (id : Nat) : Option (Except Failure (Artifact α)) := s.results.lookup id

/-- Asks for a stage; `r` is the computation to be started if there is none to join. -/
def enter (s : Session I α) (k : Key) (st : Stage) (r : Routine I α (Made α)) : Ticket α × Session I α :=
  match s.cache.request s.now k st with
  | (.hit a, c) => (.settled (a.ofStage st), { s with cache := c })
  | (.join id, c) => (.waiting id, { s with cache := c })
  | (.start m, c) => (.waiting m.id, { s with cache := c, flights := s.flights ++ [⟨m, .active r⟩] })

/-- Looks for a stage. -/
def peek (s : Session I α) (k : Key) (st : Stage) : Option (Artifact α) × Session I α :=
  let (a, c) := s.cache.peek s.now k st
  (a, { s with cache := c })

/-- Moves a computation to another position. -/
def place (s : Session I α) (id : Nat) (p : Position I α) : Session I α :=
  { s with
    flights := s.flights.map fun f => if f.computation.id = id then { f with position := p } else f
    moves := s.moves + 1 }

/-- Ends a computation with what it yields. -/
def land (s : Session I α) (m : Computation) (r : Made α) : Session I α :=
  let (result, c) := s.cache.complete s.now m r
  { s with
    cache := c
    flights := s.flights.filter fun f => f.computation.id != m.id
    results := (m.id, result) :: s.results
    moves := s.moves + 1 }

/-- A new round begins at a time, and alarms go off that are due by then. -/
def wake (s : Session I α) (time : Nat) : Session I α :=
  { s with now := max s.now time, rung := max s.now time, round := s.round + 1 }

/-! ### Callers -/

def caller? (s : Session I α) (name : String) : Option (Caller α) := s.callers.find? fun c => c.name == name

/-- The caller with the answer on its ticket, if the computation that it waits for has a result. -/
def inform (s : Session I α) (c : Caller α) : Caller α :=
  match c.ticket with
  | .settled _ => c
  | .waiting id => match s.result? id with
    | some r => { c with ticket := .settled (r.bind (Artifact.ofStage c.stage)) }
    | none => c

/-- Lets the callers of a name see whether there is a result for them. -/
def tell (s : Session I α) (name : String) : Session I α :=
  { s with callers := s.callers.map fun c => if c.name = name then s.inform c else c }

/-- Lets a caller go. -/
def dismiss (s : Session I α) (name : String) : Session I α :=
  { s with callers := s.callers.filter fun c => c.name != name }

/-- Adds a caller who gets its ticket by `call`. -/
def receive (s : Session I α) (name : String) (st : Stage) (call : Session I α → Ticket α × Session I α) : Session I α :=
  let (t, s') := call s
  let started := s.cache.nextComputation < s'.cache.nextComputation
  { s' with callers := (s'.callers.filter fun c => c.name != name) ++ [⟨name, st, started, t⟩] }

/-- The callers without an answer. -/
def waiting (s : Session I α) : List String := (s.callers.filter fun c => c.answer?.isNone).map Caller.name

/-- Whether none of these callers waits. -/
def allAnswered (s : Session I α) (names : List String) : Bool := names.all fun n => !s.waiting.contains n

end Session

end ContractMigration
