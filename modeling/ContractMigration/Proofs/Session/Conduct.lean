import ContractMigration.Proofs.Session.Progress
import Mathlib.Algebra.GroupWithZero.Nat

/-! How a routine conducts itself: which stages it waits for as long as it gets good answers, what it ends with then, and
how often it asks a question of some kind, whatever it is answered. Both are said of a routine by recursion, and both go
on to hold when it is put aside and taken up again. -/

namespace ContractMigration

/-- A failure, if it is one, is of some kind. -/
def OnlyFails {β : Type} (B : Failure → Prop) (r : Except Failure β) : Prop := ∀ e, r = .error e → B e

variable {I : Interface} {α β γ : Type} [Staged α]

namespace Routine

/-! ### What it waits for -/

/-- As long as the answers for stages are good, a routine waits for stages of a kind only, and ends well. -/
def Relies (good : Except Failure (Artifact α) → Prop) (wants : Key → Stage → Prop) (Q : β → Prop) :
    Routine I α β → Prop
  | done b => Q b
  | ask _ next => ∀ a, Relies good wants Q (next a)
  | await k st next =>
    wants k st ∧ ∀ r : Except Failure (Artifact α), good (r.bind (Artifact.ofStage st)) →
      Relies good wants Q (next (r.bind (Artifact.ofStage st)))
  | peek _ _ next => ∀ a, Relies good wants Q (next a)
  | pause next => Relies good wants Q next
  | stall => True

variable {good : Except Failure (Artifact α) → Prop} {wants : Key → Stage → Prop}

theorem Relies.bind {P : β → Prop} {Q : γ → Prop} {r : Routine I α β} {f : β → Routine I α γ}
    (hr : r.Relies good wants P) (hf : ∀ b, P b → (f b).Relies good wants Q) : (r.bind f).Relies good wants Q := by
  induction r with
  | done b => exact hf b hr
  | ask q next ih => exact fun a => ih a (hr a)
  | await k st next ih => exact ⟨hr.1, fun r hgood => ih _ (hr.2 r hgood)⟩
  | peek k st next ih => exact fun a => ih a (hr a)
  | pause next ih => exact ih hr
  | stall => trivial

theorem ReadsNothing.relies {Q : β → Prop} {r : Routine I α β} (hr : r.ReadsNothing) (hQ : ∀ b, Q b) :
    r.Relies good wants Q := by
  induction r with
  | done b => exact hQ b
  | ask q next ih => exact fun a => ih a (hr a)
  | await k st next ih => exact hr.elim
  | peek k st next ih => exact hr.elim
  | pause next ih => exact ih hr
  | stall => trivial

/-! ### What it asks -/

/-- Whatever a routine is answered, it asks at most `n` questions of a kind. -/
def AtMost (p : I.Query → Bool) : ℕ → Routine I α β → Prop
  | _, done _ => True
  | n, ask q next => if p q then 0 < n ∧ ∀ a, AtMost p (n - 1) (next a) else ∀ a, AtMost p n (next a)
  | n, await _ _ next => ∀ r, AtMost p n (next r)
  | n, peek _ _ next => ∀ a, AtMost p n (next a)
  | n, pause next => AtMost p n next
  | _, stall => True

variable {p : I.Query → Bool} {m n : ℕ}

omit [Staged α] in
theorem AtMost.mono {r : Routine I α β} (h : r.AtMost p m) (hmn : m ≤ n) : r.AtMost p n := by
  induction r generalizing m n with
  | done b => trivial
  | ask q next ih =>
    rw [AtMost] at h ⊢
    split_ifs at h ⊢
    · exact ⟨lt_of_lt_of_le h.1 hmn, fun a => ih a (h.2 a) (Nat.sub_le_sub_right hmn 1)⟩
    · exact fun a => ih a (h a) hmn
  | await k st next ih => exact fun r => ih r (h r) hmn
  | peek k st next ih => exact fun a => ih a (h a) hmn
  | pause next ih => exact ih h hmn
  | stall => trivial

omit [Staged α] in
theorem AtMost.bind {r : Routine I α β} {f : β → Routine I α γ} (hr : r.AtMost p m) (hf : ∀ b, (f b).AtMost p n) :
    (r.bind f).AtMost p (m + n) := by
  induction r generalizing m with
  | done b => exact (hf b).mono (Nat.le_add_left n m)
  | ask q next ih =>
    rw [AtMost] at hr
    rw [Routine.bind, AtMost]
    split_ifs at hr ⊢
    · refine ⟨Nat.add_pos_left hr.1 n, fun a => ?_⟩
      have hsum : m + n - 1 = m - 1 + n := by omega
      rw [hsum]
      exact ih a (hr.2 a)
    · exact fun a => ih a (hr a)
  | await k st next ih => exact fun r => ih r (hr r)
  | peek k st next ih => exact fun a => ih a (hr a)
  | pause next ih => exact ih hr
  | stall => trivial

omit [Staged α] in
/-- For a list, what is asked for each element adds up. -/
theorem AtMost.forEach {f : γ → Routine I α β} {w : γ → ℕ} (hf : ∀ c, (f c).AtMost p (w c)) (cs : List γ) :
    (Routine.forEach f cs).AtMost p (cs.map w).sum := by
  induction cs with
  | nil => trivial
  | cons c rest ih =>
    have hrest : ∀ b, ((Routine.forEach f rest).bind fun bs => done (b :: bs)).AtMost p (rest.map w).sum :=
      fun b => AtMost.bind (n := 0) ih fun bs => trivial
    exact (hf c).bind hrest

omit [Staged α] in
theorem AtMost.buffered (limit : ℕ) {f : γ → Routine I α β} {w : γ → ℕ} (hf : ∀ c, (f c).AtMost p (w c))
    (cs : List γ) : (Routine.buffered limit f cs).AtMost p (cs.map w).sum :=
  buffered_of (P := fun r => r.AtMost p (cs.map w).sum) limit trivial (AtMost.forEach hf cs)

end Routine

/-! ### Positions -/

namespace Position

variable {good : Except Failure (Artifact α) → Prop} {wants : Key → Stage → Prop} {Q : Made α → Prop}
  {p : I.Query → Bool} {n : ℕ}

/-- The same of a computation, wherever it stands. -/
def Relies (good : Except Failure (Artifact α) → Prop) (wants : Key → Stage → Prop) (Q : Made α → Prop) :
    Position I α → Prop
  | .active r => r.Relies good wants Q
  | .joined _ next => ∀ r, good r → (next r).Relies good wants Q
  | .paused _ r => r.Relies good wants Q
  | .asleep _ r => r.Relies good wants Q

theorem Goes.relies {x y : Position I α} {qs : List I.Query} (h : x.Goes y qs) (hx : x.Relies good wants Q) :
    y.Relies good wants Q := by
  cases h with
  | answered q next a => exact hx a
  | delayed q next a due => exact hx a
  | paused round next => exact hx
  | resumed round r => exact hx
  | woken due r => exact hx

omit [Staged α] in
/-- The same of a computation, wherever it stands. -/
def AtMost (p : I.Query → Bool) (n : ℕ) : Position I α → Prop
  | .active r => r.AtMost p n
  | .joined _ next => ∀ r, (next r).AtMost p n
  | .paused _ r => r.AtMost p n
  | .asleep _ r => r.AtMost p n

omit [Staged α] in
/-- Whoever asks a question can still ask one. -/
theorem AtMost.pos {f : Flight I α} (hf : f.position.AtMost p n) {q : I.Query} (hq : f.question? = some q)
    (hp : p q = true) : 0 < n := by
  rw [Flight.question?] at hq
  split at hq
  · next q' next hpos =>
    obtain rfl := Option.some.inj hq
    rw [hpos, AtMost, Routine.AtMost, if_pos hp] at hf
    exact hf.1
  · cases hq

omit [Staged α] in
/-- What is answered counts. -/
theorem Goes.atMost {x y : Position I α} {qs : List I.Query} (h : x.Goes y qs) (hx : x.AtMost p n) :
    qs.countP p ≤ n ∧ y.AtMost p (n - qs.countP p) := by
  have hasked : ∀ (q : I.Query) (next : I.Answer q → Routine I α (Made α)), (Routine.ask q next).AtMost p n →
      [q].countP p ≤ n ∧ ∀ a, (next a).AtMost p (n - [q].countP p) := by
    intro q next hq
    rw [Routine.AtMost] at hq
    rw [List.countP_singleton]
    split_ifs at hq ⊢
    · exact hq
    · exact ⟨Nat.zero_le n, hq⟩
  cases h with
  | answered q next a => exact (hasked q next hx).imp_right fun h => h a
  | delayed q next a due => exact (hasked q next hx).imp_right fun h => h a
  | paused round next => exact ⟨Nat.zero_le n, hx⟩
  | resumed round r => exact ⟨Nat.zero_le n, hx⟩
  | woken due r => exact ⟨Nat.zero_le n, hx⟩

end Position

end ContractMigration
