import ContractMigration.Cache.Basic

/-! Computations that can be put aside. A routine is a computation as far as it has come: it is done, or it says what
it needs next and how it goes on with that. What others do meanwhile is up to whoever runs it. -/

namespace ContractMigration

/-- What can be asked of the outside world, and what the answers are. -/
structure Interface where
  Query : Type
  Answer : Query → Type

/-- A computation of a `β` that asks the world, waits for stages of a repository, looks into the cache, or lets others go
first. One that stalls never goes on. -/
inductive Routine (I : Interface) (α β : Type)
  | done (b : β)
  | ask (q : I.Query) (next : I.Answer q → Routine I α β)
  | await (k : Key) (s : Stage) (next : Except Failure (Artifact α) → Routine I α β)
  | peek (k : Key) (s : Stage) (next : Option (Artifact α) → Routine I α β)
  | pause (next : Routine I α β)
  | stall

namespace Routine

variable {I : Interface} {α β γ : Type}

/-- Goes on with the result of a routine. -/
protected def bind : Routine I α β → (β → Routine I α γ) → Routine I α γ
  | done b, f => f b
  | ask q next, f => ask q fun a => (next a).bind f
  | await k s next, f => await k s fun r => (next r).bind f
  | peek k s next, f => peek k s fun a => (next a).bind f
  | pause next, f => pause (next.bind f)
  | stall, _ => stall

instance : Monad (Routine I α) where
  pure := done
  bind := Routine.bind

/-- Waits for a stage of a repository. -/
def need (k : Key) (s : Stage) : Routine I α (Except Failure (Artifact α)) := await k s done

/-- Looks for a stage of a repository. -/
def look (k : Key) (s : Stage) : Routine I α (Option (Artifact α)) := peek k s done

/-- Lets others go first. -/
def yield : Routine I α Unit := pause (done ())

/-- The results of a routine for each element, one after the other. -/
def forEach (f : γ → Routine I α β) : List γ → Routine I α (List β)
  | [] => done []
  | c :: r => (f c).bind fun b => (forEach f r).bind fun bs => done (b :: bs)

/-- The results of a routine for each element, in order, where no more than `limit` of them may be begun and not yet done.
If none may, the list is not even looked at: nobody finds out that it has an end, be it empty or not. -/
def buffered (limit : Nat) (f : γ → Routine I α β) (cs : List γ) : Routine I α (List β) :=
  if limit = 0 then stall else forEach f cs

/-- With a bound a routine stalls, or it gives the results one after the other. -/
theorem buffered_of {P : Routine I α (List β) → Prop} {f : γ → Routine I α β} {cs : List γ} (limit : Nat)
    (hstall : P stall) (h : P (forEach f cs)) : P (buffered limit f cs) := by
  unfold buffered
  split
  · exact hstall
  · exact h

end Routine

end ContractMigration
