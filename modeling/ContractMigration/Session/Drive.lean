import ContractMigration.Session.Basic

/-! One way to lead a session. Callers take turns; in its turn a caller takes the computation it waits for as far as that
can go, and what this computation waits for is taken further first. When nobody can go on, a new round begins, with the
time moved to the next alarm if nothing but an alarm can change that. Callers who are attended to go first in a round,
and the others get no turn once those in front have their answers. -/

namespace ContractMigration

/-- How the world answers: at once, after some time, or not yet. -/
inductive Response (β : Type)
  | ready (b : β)
  | later (wait : Nat) (b : β)
  | blocked

/-- What a session meets: how a stage is asked for, and how the world in state `σ` answers. -/
structure Setting (I : Interface) (α σ : Type) where
  call : Session I α → Key → Stage → Ticket α × Session I α
  answer : σ → (q : I.Query) → Response (I.Answer q) × σ

namespace Session

variable {I : Interface} {α σ : Type} [Staged α]

/-- Takes a computation as far as it can go. Each move costs one unit of fuel. -/
def drive (x : Setting I α σ) : Nat → Nat → Session I α × σ → Session I α × σ
  | 0, _, sw => sw
  | fuel + 1, id, (s, w) =>
    match s.flight? id with
    | none => (s, w)
    | some f => match f.position with
      | .active (.done r) => (s.land f.computation r, w)
      | .active (.ask q next) => match x.answer w q with
        | (.ready a, w) => drive x fuel id (s.place id (.active (next a)), w)
        | (.later wait a, w) => (s.place id (.asleep (s.now + wait) (next a)), w)
        | (.blocked, w) => (s, w)
      | .active (.await k st next) => match x.call s k st with
        | (.settled r, s) => drive x fuel id (s.place id (.active (next r)), w)
        | (.waiting other, s) =>
          drive x fuel id (s.place id (.joined other fun r => next (r.bind (Artifact.ofStage st))), w)
      | .active (.peek k st next) =>
        let (a, s) := s.peek k st
        drive x fuel id (s.place id (.active (next a)), w)
      | .active (.pause next) => (s.place id (.paused s.round next), w)
      | .active .stall => (s, w)
      | .joined other next => match s.result? other with
        | some r => drive x fuel id (s.place id (.active (next r)), w)
        | none =>
          let (s, w) := drive x fuel other (s, w)
          if (s.result? other).isSome then drive x fuel id (s, w) else (s, w)
      | .paused round r => if round < s.round then drive x fuel id (s.place id (.active r), w) else (s, w)
      | .asleep due r => if due ≤ s.rung then drive x fuel id (s.place id (.active r), w) else (s, w)

/-- Gives a caller a turn. -/
def turn (x : Setting I α σ) (fuel : Nat) (name : String) (sw : Session I α × σ) : Session I α × σ :=
  match (sw.1.caller? name).map Caller.ticket with
  | some (.waiting id) =>
    let (s, w) := drive x fuel id sw
    (s.tell name, w)
  | _ => sw

/-- Gives each of these callers a turn. -/
def turns (x : Setting I α σ) (fuel : Nat) (names : List String) (sw : Session I α × σ) : Session I α × σ :=
  names.foldl (fun sw name => turn x fuel name sw) sw

/-- Gives turns to all but some callers until none of them can go on in this round. -/
def exhaust (x : Setting I α σ) (fuel : Nat) (but : List String) : Nat → Session I α × σ → Session I α × σ
  | 0, sw => sw
  | n + 1, sw =>
    let next := turns x fuel (sw.1.waiting.filter fun name => !but.contains name) sw
    if next.1.moves = sw.1.moves then next else exhaust x fuel but n next

/-- When a computation can go on in a new round. -/
def due? (s : Session I α) : Nat → Nat → Option Nat
  | 0, _ => none
  | fuel + 1, id =>
    if (s.result? id).isSome then some s.now
    else match (s.flight? id).map Flight.position with
      | some (.paused _ _) => some s.now
      | some (.asleep due _) => some due
      | some (.joined other _) => due? s fuel other
      | _ => none

/-- When one of the callers can go on in a new round. -/
def nextDue? (s : Session I α) : Option Nat :=
  (s.callers.filterMap fun c => match c.ticket with
    | .waiting id => s.due? (s.flights.length + 1) id
    | .settled _ => none).min?

/-- Lets everything go on that can before a time, and ends at that time. -/
def passUntil (x : Setting I α σ) (fuel : Nat) (time : Nat) : Nat → Session I α × σ → Session I α × σ
  | 0, sw => sw
  | n + 1, sw =>
    if time ≤ sw.1.now then sw
    else
      let (s, w) := exhaust x fuel [] fuel sw
      match s.nextDue?.filter (· < time) with
      | some due => passUntil x fuel time n (s.wake due, w)
      | none => (s.wake time, w)

/-- Sets the clock to a time. What could go on without that goes on before the alarms that are due by then. -/
def jump (x : Setting I α σ) (fuel : Nat) (time : Nat) (sw : Session I α × σ) : Session I α × σ :=
  let (s, w) := exhaust x fuel [] fuel ({ sw.1 with now := max sw.1.now time }, sw.2)
  ({ s with rung := s.now }, w)

/-- Lets time pass until `names` have their answers. Those of them who are `inFront` go first in each round, and the
others go on only as long as an answer is missing. -/
def passUntilAnswered (x : Setting I α σ) (fuel : Nat) (names inFront : List String) :
    Nat → Session I α × σ → Session I α × σ
  | 0, sw => sw
  | n + 1, sw =>
    if sw.1.allAnswered names then sw
    else
      let (s, w) := exhaust x fuel inFront fuel sw
      if s.allAnswered names then (s, w)
      else match s.nextDue? with
        | some due => passUntilAnswered x fuel names inFront n (turns x fuel inFront (s.wake due, w))
        | none => (s, w)

/-- A new caller asks for a stage; it gets its first turn with everybody else. -/
def post (x : Setting I α σ) (fuel : Nat) (name : String) (k : Key) (st : Stage) (sw : Session I α × σ) :
    Session I α × σ :=
  let (s, w) := exhaust x fuel [] fuel sw
  (s.receive name st fun s => x.call s k st, w)

/-- A new caller asks for a stage and takes a first turn before anybody else does. -/
def ask (x : Setting I α σ) (fuel : Nat) (name : String) (k : Key) (st : Stage) (sw : Session I α × σ) :
    Session I α × σ :=
  turn x fuel name (sw.1.receive name st fun s => x.call s k st, sw.2)

end Session

end ContractMigration
