import ContractMigration.Cache.Slots
import ContractMigration.Failure
import ContractMigration.Repository.Key

/-! A cache of what the stages of a migration made, by repository and stage. An artifact is served while it is younger
than the lifetime of the cache. Storing one drops those of the stages behind it, and the repository that was not used
for the longest time makes room when there are too many. A request for what is not there starts a computation or joins
the one that is registered; a computation that was overtaken while it ran gives its result to those who wait for it,
and stores nothing. Time is given to each operation in milliseconds. -/

namespace ContractMigration

/-- Values that belong to a stage. -/
class Staged (α : Type) where
  stage : α → Stage

/-- A value with an identity of its own: no two artifacts of a cache have the same. -/
structure Artifact (α : Type) where
  id : Nat
  value : α

/-- An artifact and when it was stored. -/
structure Stored (α : Type) where
  artifact : Artifact α
  storedAt : Nat

/-- The artifacts of one repository. -/
abbrev Entry (α : Type) := Slots (Option (Stored α))

/-- A computation that was started for a stage of a repository, with the epoch of that stage at its start. -/
structure Computation where
  id : Nat
  key : Key
  stage : Stage
  epoch : Nat
  deriving DecidableEq

/-- The computation that later requests for a stage of a repository join. -/
structure Handle where
  key : Key
  stage : Stage
  id : Nat
  deriving DecidableEq

/-- The artifacts, the least recently used repository first, and the computations that can be joined. The epoch of a
stage grows whenever running computations of it must no longer store. -/
structure Cache (α : Type) where
  lifetime : Nat
  capacity : Nat
  entries : List (Key × Entry α)
  handles : List Handle
  epochs : List (Key × Slots Nat)
  nextComputation : Nat
  nextArtifact : Nat
  hits : Nat
  misses : Nat

/-- The numbers a cache tells about itself. -/
structure CacheStats where
  entries : Nat
  inFlight : Nat
  hits : Nat
  misses : Nat
  deriving DecidableEq

/-- What becomes of a request: it is served, it waits for a computation, or it starts one. -/
inductive Request (α : Type)
  | hit (a : Artifact α)
  | join (id : Nat)
  | start (m : Computation)

namespace Artifact

variable {α : Type} [Staged α]

def stage (a : Artifact α) : Stage := Staged.stage a.value

/-- Whether two artifacts are one and the same. -/
def isSame (a b : Artifact α) : Bool := a.stage == b.stage && a.id == b.id

/-- The failure of a stage that holds what another stage made. -/
def mismatch (wanted found : Stage) : Failure :=
  .internal ("cache slot " ++ wanted.name ++ " holds a " ++ found.name ++ " artifact")

/-- The artifact, if it is of the wanted stage. -/
def ofStage (wanted : Stage) (a : Artifact α) : Except Failure (Artifact α) :=
  if a.stage = wanted then .ok a else .error (mismatch wanted a.stage)

end Artifact

namespace Entry

variable {α : Type}

def empty : Entry α := Slots.fill none

def isEmpty (e : Entry α) : Bool := Stage.all.all fun s => (e.get s).isNone

/-- Empties the slots of some stages. -/
def drop (e : Entry α) (stages : List Stage) : Entry α := e.modify stages fun _ => none

end Entry

namespace Cache

variable {α : Type}

/-- A cache without artifacts; there is room for one repository at least. -/
def empty (lifetime capacity : Nat) : Cache α where
  lifetime := lifetime
  capacity := max capacity 1
  entries := []
  handles := []
  epochs := []
  nextComputation := 0
  nextArtifact := 0
  hits := 0
  misses := 0

/-! ### Slots -/

def entry? (c : Cache α) (k : Key) : Option (Entry α) := c.entries.lookup k

/-- What is stored for a stage, however old. -/
def slot? (c : Cache α) (k : Key) (s : Stage) : Option (Stored α) := (c.entry? k).bind (·.get s)

/-- Whether something stored is younger than the lifetime. -/
def isFresh (c : Cache α) (now : Nat) (x : Stored α) : Bool := now - x.storedAt < c.lifetime

/-- The artifact of a stage, if it is fresh. -/
def visible? (c : Cache α) (now : Nat) (k : Key) (s : Stage) : Option (Artifact α) :=
  ((c.slot? k s).filter (c.isFresh now)).map Stored.artifact

/-- Replaces the entry of a repository; an empty one is left out. -/
def replaceEntry (es : List (Key × Entry α)) (k : Key) (e : Entry α) : List (Key × Entry α) :=
  es.filterMap fun (j, f) => if j = k then if e.isEmpty then none else some (j, e) else some (j, f)

/-- Empties the slots of some stages of a repository. -/
def dropSlots (c : Cache α) (k : Key) (stages : List Stage) : Cache α :=
  match c.entry? k with
  | none => c
  | some e => { c with entries := replaceEntry c.entries k (e.drop stages) }

/-- How many of the stages hold an artifact. -/
def countSlots (c : Cache α) (k : Key) (stages : List Stage) : Nat := (stages.filter fun s => (c.slot? k s).isSome).length

/-- Empties the slot of a stage if what it holds is not fresh. -/
def expire (c : Cache α) (now : Nat) (k : Key) (s : Stage) : Cache α :=
  match c.slot? k s with
  | some x => if c.isFresh now x then c else c.dropSlots k [s]
  | none => c

/-- Makes a repository the most recently used one. -/
def touch (c : Cache α) (k : Key) : Cache α :=
  match c.entry? k with
  | none => c
  | some e => { c with entries := c.entries.filter (fun x => x.1 != k) ++ [(k, e)] }

/-- Drops the least recently used repositories until there is room. -/
def evict (c : Cache α) : Cache α := { c with entries := c.entries.drop (c.entries.length - c.capacity) }

/-! ### Epochs and handles -/

def epoch (c : Cache α) (k : Key) (s : Stage) : Nat := ((c.epochs.lookup k).getD (Slots.fill 0)).get s

/-- Lets the epochs of some stages grow. -/
def bump (c : Cache α) (k : Key) (stages : List Stage) : Cache α :=
  let grown := ((c.epochs.lookup k).getD (Slots.fill 0)).modify stages (· + 1)
  { c with epochs := (k, grown) :: c.epochs.filter fun x => x.1 != k }

/-- The computation registered for a stage. -/
def registered? (c : Cache α) (k : Key) (s : Stage) : Option Nat :=
  (c.handles.find? fun h => h.key == k && h.stage == s).map Handle.id

/-- Lets later requests for these stages join no computation. -/
def detach (c : Cache α) (k : Key) (stages : List Stage) : Cache α :=
  { c with handles := c.handles.filter fun h => !(h.key == k && stages.contains h.stage) }

/-- Removes the handle of a computation, if it is still there. -/
def unregister (c : Cache α) (m : Computation) : Cache α :=
  { c with handles := c.handles.filter fun h => h != ⟨m.key, m.stage, m.id⟩ }

/-! ### Operations -/

/-- The artifact of a stage without any effect on the order of use; one that is too old is dropped. -/
def peek (c : Cache α) (now : Nat) (k : Key) (s : Stage) : Option (Artifact α) × Cache α :=
  (c.visible? now k s, c.expire now k s)

/-- Whether a stage can be served; an artifact that is too old is dropped. -/
def contains (c : Cache α) (now : Nat) (k : Key) (s : Stage) : Bool × Cache α :=
  ((c.visible? now k s).isSome, c.expire now k s)

/-- The stages that can be served, asked in order. -/
def cached (c : Cache α) (now : Nat) (k : Key) : List Stage × Cache α :=
  Stage.all.foldl (fun (ss, c) s =>
    let (found, c) := c.contains now k s
    (if found then ss ++ [s] else ss, c)) ([], c)

/-- Asks for the artifact of a stage. -/
def request (c : Cache α) (now : Nat) (k : Key) (s : Stage) : Request α × Cache α :=
  match c.visible? now k s with
  | some a => (.hit a, { c.touch k with hits := c.hits + 1 })
  | none =>
    let c := c.expire now k s
    match c.registered? k s with
    | some id => (.join id, { c with hits := c.hits + 1 })
    | none =>
      let id := c.nextComputation
      (.start ⟨id, k, s, c.epoch k s⟩,
        { c with handles := c.handles ++ [⟨k, s, id⟩], nextComputation := id + 1, misses := c.misses + 1 })

/-- Gives a value its identity. -/
def wrap (c : Cache α) (v : α) : Artifact α × Cache α :=
  (⟨c.nextArtifact, v⟩, { c with nextArtifact := c.nextArtifact + 1 })

variable [Staged α]

/-- Stores an artifact and drops those of the stages behind it. -/
def store (c : Cache α) (now : Nat) (k : Key) (a : Artifact α) : Cache α :=
  let c := c.dropSlots k a.stage.downstream
  let entry := ((c.entry? k).getD Entry.empty).set a.stage (some ⟨a, now⟩)
  evict { c with entries := c.entries.filter (fun x => x.1 != k) ++ [(k, entry)] }

/-- Whether each of these artifacts is still the one stored for its stage. -/
def isCurrent (c : Cache α) (k : Key) (lineage : List (Artifact α)) : Bool :=
  lineage.all fun a => (c.slot? k a.stage).any fun x => x.artifact.isSame a

/-- Ends a computation. A value comes with the artifacts it was made from; it is stored if no epoch has passed since the
start and all of these are current. -/
def complete (c : Cache α) (now : Nat) (m : Computation) (r : Except Failure (α × List (Artifact α))) :
    Except Failure (Artifact α) × Cache α :=
  let c := c.unregister m
  match r with
  | .error e => (.error e, c)
  | .ok (v, lineage) =>
    let (a, c) := c.wrap v
    (.ok a, if c.epoch m.key m.stage = m.epoch && c.isCurrent m.key lineage then c.store now m.key a else c)

/-- Stores a value that was made elsewhere. -/
def insert (c : Cache α) (now : Nat) (k : Key) (v : α) : Artifact α × Cache α :=
  let (a, c) := c.wrap v
  (a, ((c.bump k [a.stage]).detach k [a.stage]).store now k a)

/-- Drops the artifacts of a stage and of those behind it, and tells how many there were. -/
def invalidate (c : Cache α) (k : Key) (s : Stage) : Nat × Cache α :=
  (c.countSlots k s.andDownstream, ((c.bump k s.andDownstream).detach k s.andDownstream).dropSlots k s.andDownstream)

/-- Drops all artifacts and handles. Epochs grow for the repositories that have an entry. -/
def clear (c : Cache α) : Cache α :=
  let c := (c.entries.map Prod.fst).foldl (fun c k => c.bump k Stage.all) c
  { c with entries := [], handles := [] }

/-! ### Numbers -/

def stats (c : Cache α) : CacheStats := ⟨c.entries.length, c.handles.length, c.hits, c.misses⟩

/-- A length of time in its largest unit. -/
def lifetimeText (ms : Nat) : String :=
  if ms = 0 then "0ns"
  else if ms < 1000 then toString ms ++ "ms"
  else
    let places := Nat.toDigits 10 (1000 + ms % 1000)
    let fraction := ((places.drop 1).reverse.dropWhile (· == '0')).reverse
    toString (ms / 1000) ++ (if fraction.isEmpty then "" else "." ++ String.ofList fraction) ++ "s"

/-- The text of the numbers. -/
def statsText (s : CacheStats) : String :=
  "CacheStats \x7b entries: " ++ toString s.entries ++ ", in_flight: " ++ toString s.inFlight ++ ", hits: " ++
    toString s.hits ++ ", misses: " ++ toString s.misses ++ " \x7d"

/-- One line about a cache. -/
def describe (c : Cache α) : String :=
  "PipelineCache \x7b ttl: " ++ lifetimeText c.lifetime ++ ", max_repositories: " ++ toString c.capacity ++ ", stats: " ++
    statsText c.stats ++ " \x7d"

end Cache

end ContractMigration
