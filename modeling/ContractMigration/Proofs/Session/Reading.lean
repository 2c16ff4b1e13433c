import ContractMigration.Session.Basic

/-! What a computation has read when it ends. A routine is judged by what it does with every answer it can get: for each
stage that it waits for and each look into the cache the list of its reads grows, and at its end the result is held
against the whole list. So a fact about one routine holds however it is put aside and taken up again. -/

namespace ContractMigration

/-- What a computation reads: the answer for a stage that it waited for, or what it found when it looked for one. -/
inductive Read (α : Type)
  | received (r : Except Failure (Artifact α))
  | looked (k : Key) (s : Stage) (a : Option (Artifact α))

namespace Routine

variable {I : Interface} {α β γ : Type} [Staged α]

/-- Whatever a routine is answered from here on, its result fits to what it has read by then. -/
def Meets (Q : List (Read α) → β → Prop) : List (Read α) → Routine I α β → Prop
  | reads, done b => Q reads b
  | reads, ask _ next => ∀ a, Meets Q reads (next a)
  | reads, await _ s next => ∀ r, Meets Q (reads ++ [.received r]) (next (r.bind (Artifact.ofStage s)))
  | reads, peek k s next => ∀ a, Meets Q (reads ++ [.looked k s a]) (next a)
  | reads, pause next => Meets Q reads next
  | _, stall => True

/-- A routine goes on with what it is given at its end. -/
theorem Meets.bind {P : List (Read α) → β → Prop} {Q : List (Read α) → γ → Prop} {r : Routine I α β}
    {f : β → Routine I α γ} {reads : List (Read α)} (hr : r.Meets P reads)
    (hf : ∀ reads b, P reads b → (f b).Meets Q reads) : (r.bind f).Meets Q reads := by
  induction r generalizing reads with
  | done b => exact hf reads b hr
  | ask q next ih => exact fun a => ih a (hr a)
  | await k s next ih => exact fun r => ih _ (hr r)
  | peek k s next ih => exact fun a => ih a (hr a)
  | pause next ih => exact ih hr
  | stall => trivial

theorem Meets.mono {P Q : List (Read α) → β → Prop} {r : Routine I α β} {reads : List (Read α)} (hr : r.Meets P reads)
    (h : ∀ reads b, P reads b → Q reads b) : r.Meets Q reads := by
  induction r generalizing reads with
  | done b => exact h reads b hr
  | ask q next ih => exact fun a => ih a (hr a)
  | await k s next ih => exact fun r => ih _ (hr r)
  | peek k s next ih => exact fun a => ih a (hr a)
  | pause next ih => exact ih hr
  | stall => trivial

/-- A routine that neither waits for a stage nor looks for one. -/
def ReadsNothing : Routine I α β → Prop
  | done _ => True
  | ask _ next => ∀ a, ReadsNothing (next a)
  | await _ _ _ => False
  | peek _ _ _ => False
  | pause next => ReadsNothing next
  | stall => True

theorem ReadsNothing.meets {Q : List (Read α) → β → Prop} {r : Routine I α β} (hr : r.ReadsNothing)
    {reads : List (Read α)} (hQ : ∀ b, Q reads b) : r.Meets Q reads := by
  induction r with
  | done b => exact hQ b
  | ask q next ih => exact fun a => ih a (hr a)
  | await k s next ih => exact hr.elim
  | peek k s next ih => exact hr.elim
  | pause next ih => exact ih hr
  | stall => trivial

omit [Staged α] in
theorem ReadsNothing.bind {r : Routine I α β} {f : β → Routine I α γ} (hr : r.ReadsNothing)
    (hf : ∀ b, (f b).ReadsNothing) : (r.bind f).ReadsNothing := by
  induction r with
  | done b => exact hf b
  | ask q next ih => exact fun a => ih a (hr a)
  | await k s next ih => exact hr.elim
  | peek k s next ih => exact hr.elim
  | pause next ih => exact ih hr
  | stall => trivial

omit [Staged α] in
theorem readsNothing_forEach {f : γ → Routine I α β} (hf : ∀ c, (f c).ReadsNothing) (cs : List γ) :
    (forEach f cs).ReadsNothing := by
  induction cs with
  | nil => trivial
  | cons c rest ih => exact (hf c).bind fun b => ih.bind fun bs => trivial

omit [Staged α] in
theorem readsNothing_buffered (limit : Nat) {f : γ → Routine I α β} (hf : ∀ c, (f c).ReadsNothing) (cs : List γ) :
    (buffered limit f cs).ReadsNothing := buffered_of limit trivial (readsNothing_forEach hf cs)

end Routine

/-- What is kept of a computation, wherever it stands. -/
def Position.Meets {I : Interface} {α : Type} [Staged α] (Q : List (Read α) → Made α → Prop) (reads : List (Read α)) :
    Position I α → Prop
  | .active r => r.Meets Q reads
  | .joined _ next => ∀ r, (next r).Meets Q (reads ++ [.received r])
  | .paused _ r => r.Meets Q reads
  | .asleep _ r => r.Meets Q reads

end ContractMigration
