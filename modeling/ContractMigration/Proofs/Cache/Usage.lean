import ContractMigration.Proofs.Cache.Epochs

/-! A cache in use. Callers ask for stages, look into the cache, insert, invalidate and clear, time passes, and the
computations that were started end one by one, all of it in any order; what a computation comes to is up to the world.
The story of a run is the list of what was done, each with its answer. What one action can do to the contents, to the
running computations and to the handles is said once, and what every run keeps follows from that. -/

namespace ContractMigration

/-- A stage can stand for what it makes. -/
instance : Staged Stage := ⟨id⟩

/-- What a computation of a stage comes to: a value of that stage with the artifacts it is said to be made from, or a
failure. -/
inductive Yield (α : Type) [Staged α] (s : Stage)
  | value (v : α) (sources : List (Artifact α)) (staged : Staged.stage v = s)
  | failure (e : Failure)

/-- A cache in use: the cache, the computations that run, and the time. -/
structure Usage (α : Type) where
  cache : Cache α
  running : List Computation
  now : ℕ

namespace Yield

variable {α : Type} [Staged α] {s : Stage}

/-- The form in which a cache takes it. -/
def made : Yield α s → Except Failure (α × List (Artifact α))
  | value v sources _ => .ok (v, sources)
  | failure e => .error e

def sources : Yield α s → List (Artifact α)
  | value _ sources _ => sources
  | failure _ => []

end Yield

/-- The computation that a request starts. -/
def Request.started {α : Type} : Request α → List Computation
  | .start m => [m]
  | _ => []

namespace Usage

/-- What is done with a cache. -/
inductive Action (α : Type) [Staged α]
  | request (k : Key) (s : Stage)
  | finish (m : Computation) (r : Yield α m.stage)
  | insert (k : Key) (v : α)
  | invalidate (k : Key) (s : Stage)
  | clear
  | peek (k : Key) (s : Stage)
  | contains (k : Key) (s : Stage)
  | wait (time : ℕ)

def Action.isFinish {α : Type} [Staged α] : Action α → Bool
  | finish _ _ => true
  | _ => false

/-- What was done with a cache, and the answer. -/
inductive Event (α : Type)
  | requested (k : Key) (s : Stage) (r : Request α)
  | finished (m : Computation) (r : Except Failure (Artifact α)) (sources : List (Artifact α))
  | inserted (k : Key) (a : Artifact α)
  | invalidated (k : Key) (s : Stage)
  | cleared
  | peeked (k : Key) (s : Stage) (a : Option (Artifact α))
  | tested (k : Key) (s : Stage) (found : Bool)
  | waited (time : ℕ)

/-- The artifact that came to be. -/
def Event.made {α : Type} : Event α → List (Artifact α)
  | finished _ (.ok a) _ => [a]
  | inserted _ a => [a]
  | _ => []

variable {α : Type} [Staged α]

/-- A new cache that nobody has used. -/
def start (lifetime capacity : ℕ) : Usage α := ⟨.empty lifetime capacity, [], 0⟩

/-- Only a computation that runs can finish. -/
def step (u : Usage α) : Action α → Usage α
  | .request k s =>
    let (r, c) := u.cache.request u.now k s
    { u with cache := c, running := u.running ++ r.started }
  | .finish m r =>
    if m ∈ u.running then
      { u with cache := (u.cache.complete u.now m r.made).2, running := u.running.filter (· ≠ m) }
    else u
  | .insert k v => { u with cache := (u.cache.insert u.now k v).2 }
  | .invalidate k s => { u with cache := (u.cache.invalidate k s).2 }
  | .clear => { u with cache := u.cache.clear }
  | .peek k s => { u with cache := (u.cache.peek u.now k s).2 }
  | .contains k s => { u with cache := (u.cache.contains u.now k s).2 }
  | .wait time => { u with now := u.now + time }

def events (u : Usage α) : Action α → List (Event α)
  | .request k s => [.requested k s (u.cache.request u.now k s).1]
  | .finish m r => if m ∈ u.running then [.finished m (u.cache.complete u.now m r.made).1 r.sources] else []
  | .insert k v => [.inserted k (u.cache.insert u.now k v).1]
  | .invalidate k s => [.invalidated k s]
  | .clear => [.cleared]
  | .peek k s => [.peeked k s (u.cache.peek u.now k s).1]
  | .contains k s => [.tested k s (u.cache.contains u.now k s).1]
  | .wait time => [.waited time]

theorem step_request (u : Usage α) (k : Key) (s : Stage) :
    u.step (.request k s) =
      ⟨(u.cache.request u.now k s).2, u.running ++ (u.cache.request u.now k s).1.started, u.now⟩ := rfl

/-- A computation that fails leaves the cache without its handle. -/
theorem step_failure {u : Usage α} {m : Computation} (hm : m ∈ u.running) (e : Failure) :
    u.step (.finish m (.failure e)) = ⟨u.cache.unregister m, u.running.filter (· ≠ m), u.now⟩ := if_pos hm

theorem step_finish_of_not_mem {u : Usage α} {m : Computation} (hm : m ∉ u.running) (r : Yield α m.stage) :
    u.step (.finish m r) = u := if_neg hm

def run (acts : List (Action α)) (u : Usage α) : Usage α := acts.foldl step u

@[simp] theorem run_nil (u : Usage α) : run [] u = u := rfl

@[simp] theorem run_cons (a : Action α) (acts : List (Action α)) (u : Usage α) :
    run (a :: acts) u = run acts (u.step a) := rfl

theorem run_append (acts acts' : List (Action α)) (u : Usage α) : run (acts ++ acts') u = run acts' (run acts u) :=
  List.foldl_append

/-- What happens in a run, in order. -/
def story : List (Action α) → Usage α → List (Event α)
  | [], _ => []
  | a :: rest, u => u.events a ++ story rest (u.step a)

@[simp] theorem story_nil (u : Usage α) : story [] u = [] := rfl

@[simp] theorem story_cons (a : Action α) (acts : List (Action α)) (u : Usage α) :
    story (a :: acts) u = u.events a ++ story acts (u.step a) := rfl

theorem story_append (acts acts' : List (Action α)) (u : Usage α) :
    story (acts ++ acts') u = story acts u ++ story acts' (run acts u) := by
  induction acts generalizing u with
  | nil => rfl
  | cons a rest ih => rw [List.cons_append, story_cons, ih, story_cons, run_cons, List.append_assoc]

/-- What each step of a run keeps, together with what has happened so far, holds at its end. -/
theorem run_invariant {P : List (Event α) → Usage α → Prop} {Q : Action α → Prop}
    (hstep : ∀ h u a, Q a → P h u → P (h ++ u.events a) (u.step a)) (acts : List (Action α)) (hQ : ∀ a ∈ acts, Q a)
    {h : List (Event α)} {u : Usage α} (hu : P h u) : P (h ++ story acts u) (run acts u) := by
  induction acts generalizing h u with
  | nil => simpa using hu
  | cons a rest ih =>
    rw [run_cons, story_cons, ← List.append_assoc]
    rw [List.forall_mem_cons] at hQ
    exact ih hQ.2 (hstep h u a hQ.1 hu)

/-- What every step keeps, whatever is done, holds at the end of a run. -/
theorem run_keeps {P : List (Event α) → Usage α → Prop}
    (hstep : ∀ h u a, P h u → P (h ++ u.events a) (u.step a)) (acts : List (Action α)) {h : List (Event α)} {u : Usage α}
    (hu : P h u) : P (h ++ story acts u) (run acts u) :=
  run_invariant (Q := fun _ => True) (fun h u a _ => hstep h u a) acts (fun _ _ => trivial) hu

end Usage

end ContractMigration
