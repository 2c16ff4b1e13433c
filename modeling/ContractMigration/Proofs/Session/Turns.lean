import ContractMigration.Proofs.Session.Answers
import ContractMigration.Proofs.Session.Leading
import Mathlib.Data.List.GetD
import Mathlib.Data.Nat.Pairing
import Mathlib.Order.Basic

/-! Whoever gets a turn again and again comes to an end, unless it stalls. A session goes on and on, and anything may be done
in it; but each computation that runs is taken further at some later time, and then the world answers. Every turn in which a
computation can go on brings it nearer to its end, and while it waits for another one, that one is of an earlier stage and
comes to its own end. So no computation runs for ever that never stalls. -/

namespace ContractMigration

variable {I : Interface} {α β γ : Type} [Staged α]

/-! ### Routines that never stall -/

namespace Routine

omit [Staged α]

/-- Whatever a routine is answered, it goes on until it is done. -/
def Proceeds : Routine I α β → Prop
  | done _ => True
  | ask _ next => ∀ a, Proceeds (next a)
  | await _ _ next => ∀ r, Proceeds (next r)
  | peek _ _ next => ∀ a, Proceeds (next a)
  | pause next => Proceeds next
  | stall => False

theorem Proceeds.bind {r : Routine I α β} {f : β → Routine I α γ} (hr : r.Proceeds) (hf : ∀ b, (f b).Proceeds) :
    (r.bind f).Proceeds := by
  induction r with
  | done b => exact hf b
  | ask q next ih => exact fun a => ih a (hr a)
  | await k st next ih => exact fun r => ih r (hr r)
  | peek k st next ih => exact fun a => ih a (hr a)
  | pause next ih => exact ih hr
  | stall => exact hr.elim

/-- Where some may be begun, all come to be done. -/
theorem Proceeds.buffered {limit : ℕ} (hlimit : 0 < limit) {f : γ → Routine I α β} (hf : ∀ c, (f c).Proceeds)
    (cs : List γ) : (Routine.buffered limit f cs).Proceeds := by
  rw [Routine.buffered, if_neg hlimit.ne']
  induction cs with
  | nil => trivial
  | cons c rest ih => exact (hf c).bind fun b => ih.bind fun bs => trivial

end Routine

/-- The same of a computation, wherever it stands. -/
def Position.Proceeds : Position I α → Prop
  | .active r => r.Proceeds
  | .joined _ next => ∀ r, (next r).Proceeds
  | .paused _ r => r.Proceeds
  | .asleep _ r => r.Proceeds

/-! ### Positions -/

/-- A position in which a computation can be after one turn. -/
inductive Position.After : Position I α → Position I α → Prop
  | answered (q : I.Query) (next : I.Answer q → Routine I α (Made α)) (a : I.Answer q) :
      After (.active (next a)) (.active (.ask q next))
  | delayed (q : I.Query) (next : I.Answer q → Routine I α (Made α)) (a : I.Answer q) (due : ℕ) :
      After (.asleep due (next a)) (.active (.ask q next))
  | served (k : Key) (st : Stage) (next : Except Failure (Artifact α) → Routine I α (Made α))
      (r : Except Failure (Artifact α)) : After (.active (next r)) (.active (.await k st next))
  | waits (k : Key) (st : Stage) (next : Except Failure (Artifact α) → Routine I α (Made α)) (other : ℕ) :
      After (.joined other fun r => next (r.bind (Artifact.ofStage st))) (.active (.await k st next))
  | looked (k : Key) (st : Stage) (next : Option (Artifact α) → Routine I α (Made α)) (a : Option (Artifact α)) :
      After (.active (next a)) (.active (.peek k st next))
  | paused (round : ℕ) (next : Routine I α (Made α)) : After (.paused round next) (.active (.pause next))
  | told (other : ℕ) (next : Except Failure (Artifact α) → Routine I α (Made α)) (r : Except Failure (Artifact α)) :
      After (.active (next r)) (.joined other next)
  | resumed (round : ℕ) (r : Routine I α (Made α)) : After (.active r) (.paused round r)
  | woken (due : ℕ) (r : Routine I α (Made α)) : After (.active r) (.asleep due r)

theorem Position.Goes.after {pos pos' : Position I α} {qs : List I.Query} (h : pos.Goes pos' qs) : pos'.After pos := by
  cases h with
  | answered q next a => exact .answered q next a
  | delayed q next a due => exact .delayed q next a due
  | paused round next => exact .paused round next
  | resumed round r => exact .resumed round r
  | woken due r => exact .woken due r

theorem Position.acc_active (r : Routine I α (Made α)) : Acc Position.After (.active r) := by
  induction r with
  | done b => exact .intro _ fun _ h => nomatch h
  | ask q next ih =>
    refine .intro _ fun _ h => ?_
    cases h with
    | answered q next a => exact ih a
    | delayed q next a due =>
      refine .intro _ fun _ h => ?_
      cases h
      exact ih a
  | await k st next ih =>
    refine .intro _ fun _ h => ?_
    cases h with
    | served k st next r => exact ih r
    | waits k st next other =>
      refine .intro _ fun _ h => ?_
      cases h
      exact ih _
  | peek k st next ih =>
    refine .intro _ fun _ h => ?_
    cases h
    exact ih _
  | pause next ih =>
    refine .intro _ fun _ h => ?_
    cases h
    refine .intro _ fun _ h => ?_
    cases h
    exact ih
  | stall => exact .intro _ fun _ h => nomatch h

/-- There is an end to the turns of a computation. -/
theorem Position.acc (pos : Position I α) : Acc Position.After pos := by
  cases pos with
  | active r => exact acc_active r
  | joined other next =>
    refine .intro _ fun _ h => ?_
    cases h
    exact acc_active _
  | paused round r =>
    refine .intro _ fun _ h => ?_
    cases h
    exact acc_active r
  | asleep due r =>
    refine .intro _ fun _ h => ?_
    cases h
    exact acc_active r

namespace Session

/-! ### Turns -/

omit [Staged α] in
theorem flight?_of_mem {s : Session I α} (hids : (s.usage.running.map Computation.id).Nodup) {f : Flight I α}
    (hf : f ∈ s.flights) : s.flight? f.computation.id = some f := by
  rw [usage, List.map_map] at hids
  rcases hg : s.flight? f.computation.id with _ | g
  · simpa using List.find?_eq_none.mp hg f hf
  · have hid : g.computation.id = f.computation.id := by simpa using List.find?_some hg
    rw [List.inj_on_of_nodup_map hids (List.mem_of_find?_eq_some hg) hf hid]

variable {call : Session I α → Key → Stage → Ticket α × Session I α} (hcall : Lawful call) {H : List (Event α)}
  {s : Session I α} {f : Flight I α}

include hcall

omit hcall

/-! ### Courses -/

variable {σ : ℕ → Move I α} {n n' : ℕ}

section

variable {P : Position I α → Prop} {task : Key → Stage → Routine I α (Made α)}
  (hwork : ∀ s k st, call s k st = s.enter k st (task k st)) (hstart : ∀ k st, P (.active (task k st)))
  (hafter : ∀ pos pos', pos'.After pos → P pos → P pos')

include hwork hstart

include hafter

end

/-! ### Ends -/

section

variable (hs : Tracked H s)

include hcall hs

end

end Session

end ContractMigration
