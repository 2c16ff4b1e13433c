import ContractMigration.Session.Routine
import Mathlib.Data.List.Basic

/-! What a computation is given between its start and its end: answers to its questions, results of stages that it waits
for, and what it finds in the cache. A routine is finite on every path, so to say of all its paths how they end is also to
say that it ends. -/

namespace ContractMigration

/-- Something that a computation is given. -/
inductive Exchange (I : Interface) (α : Type)
  | asked (q : I.Query) (a : I.Answer q)
  | received (k : Key) (s : Stage) (r : Except Failure (Artifact α))
  | looked (k : Key) (s : Stage) (a : Option (Artifact α))

namespace Routine

variable {I : Interface} {α β γ : Type} {P : List (Exchange I α) → β → Prop}

/-- Whatever a routine is given from here on, it ends with a result that fits to all that it was given by then. -/
def Ends (Q : List (Exchange I α) → β → Prop) : List (Exchange I α) → Routine I α β → Prop
  | es, done b => Q es b
  | es, ask q next => ∀ a, Ends Q (es ++ [.asked q a]) (next a)
  | es, await k s next => ∀ r, Ends Q (es ++ [.received k s r]) (next r)
  | es, peek k s next => ∀ a, Ends Q (es ++ [.looked k s a]) (next a)
  | es, pause next => Ends Q es next
  | _, stall => True

theorem Ends.mono {Q : List (Exchange I α) → β → Prop} {r : Routine I α β} {es : List (Exchange I α)} (hr : r.Ends P es)
    (h : ∀ es b, P es b → Q es b) : r.Ends Q es := by
  induction r generalizing es with
  | done b => exact h es b hr
  | ask q next ih => exact fun a => ih a (hr a)
  | await k s next ih => exact fun r => ih r (hr r)
  | peek k s next ih => exact fun a => ih a (hr a)
  | pause next ih => exact ih hr
  | stall => trivial

theorem Ends.bind {R : List (Exchange I α) → γ → Prop} {r : Routine I α β} {f : β → Routine I α γ}
    {es : List (Exchange I α)} (hr : r.Ends P es) (hf : ∀ es b, P es b → (f b).Ends R es) : (r.bind f).Ends R es := by
  induction r generalizing es with
  | done b => exact hf es b hr
  | ask q next ih => exact fun a => ih a (hr a)
  | await k s next ih => exact fun r => ih r (hr r)
  | peek k s next ih => exact fun a => ih a (hr a)
  | pause next ih => exact ih hr
  | stall => trivial

/-- What was given before is among all that was given by the end. -/
theorem Ends.keeps {r : Routine I α β} {es : List (Exchange I α)} {x : Exchange I α} (hr : r.Ends P es) (hx : x ∈ es) :
    r.Ends (fun es' b => P es' b ∧ x ∈ es') es := by
  induction r generalizing es with
  | done b => exact ⟨hr, hx⟩
  | ask q next ih => exact fun a => ih a (hr a) (List.mem_append_left _ hx)
  | await k s next ih => exact fun r => ih r (hr r) (List.mem_append_left _ hx)
  | peek k s next ih => exact fun a => ih a (hr a) (List.mem_append_left _ hx)
  | pause next ih => exact ih hr hx
  | stall => trivial

/-- For a list, the results come in its order, and all that is given on the way is given for one of its elements. -/
theorem Ends.forEach {f : γ → Routine I α β} {G : γ → β → Prop} {T : γ → Exchange I α → Prop}
    (hf : ∀ c es, (f c).Ends (fun es' b => G c b ∧ ∀ x ∈ es', x ∈ es ∨ T c x) es) (cs : List γ)
    (es : List (Exchange I α)) :
    (Routine.forEach f cs).Ends (fun es' bs => List.Forall₂ G cs bs ∧ ∀ x ∈ es', x ∈ es ∨ ∃ c ∈ cs, T c x) es := by
  induction cs generalizing es with
  | nil => exact ⟨List.Forall₂.nil, fun x hx => .inl hx⟩
  | cons c rest ih =>
    refine (hf c es).bind fun es₁ b hb => (ih es₁).bind fun es₂ bs hbs => ?_
    refine ⟨List.Forall₂.cons hb.1 hbs.1, fun x hx => ?_⟩
    rcases hbs.2 x hx with hx | ⟨d, hd, hT⟩
    · exact (hb.2 x hx).imp_right fun hT => ⟨c, List.mem_cons_self, hT⟩
    · exact .inr ⟨d, List.mem_cons_of_mem c hd, hT⟩

theorem Ends.buffered (limit : ℕ) {f : γ → Routine I α β} {G : γ → β → Prop} {T : γ → Exchange I α → Prop}
    (hf : ∀ c es, (f c).Ends (fun es' b => G c b ∧ ∀ x ∈ es', x ∈ es ∨ T c x) es) (cs : List γ)
    (es : List (Exchange I α)) :
    (Routine.buffered limit f cs).Ends
      (fun es' bs => List.Forall₂ G cs bs ∧ ∀ x ∈ es', x ∈ es ∨ ∃ c ∈ cs, T c x) es :=
  buffered_of (P := fun r => r.Ends _ es) limit trivial (Ends.forEach hf cs es)

end Routine

end ContractMigration
