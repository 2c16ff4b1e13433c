import ContractMigration.Proofs.Pipeline.Tasks

/-! In which order the computation of a stage waits for others. Whatever it is answered, it waits for a stage only while
all that it has received is of earlier stages, so what it has received outlives the computations that it causes. -/

namespace ContractMigration

namespace Routine

variable {I : Interface} {α β γ : Type} [Staged α]

/-- A routine waits for a stage only if all that it has received by then is of earlier stages. -/
def InOrder : List (Read α) → Routine I α β → Prop
  | _, done _ => True
  | reads, ask _ next => ∀ a, InOrder reads (next a)
  | reads, await _ s next => (∀ x, .received (.ok x) ∈ reads → x.stage.rank < s.rank) ∧
      ∀ r, InOrder (reads ++ [.received r]) (next (r.bind (Artifact.ofStage s)))
  | reads, peek k s next => ∀ a, InOrder (reads ++ [.looked k s a]) (next a)
  | reads, pause next => InOrder reads next
  | _, stall => True

theorem InOrder.bind {P : List (Read α) → β → Prop} {r : Routine I α β} {f : β → Routine I α γ} {reads : List (Read α)}
    (hr : r.InOrder reads) (hm : r.Meets P reads) (hf : ∀ reads b, P reads b → (f b).InOrder reads) :
    (r.bind f).InOrder reads := by
  induction r generalizing reads with
  | done b => exact hf reads b hm
  | ask q next ih => exact fun a => ih a (hr a) (hm a)
  | await k s next ih => exact ⟨hr.1, fun r => ih _ (hr.2 r) (hm r)⟩
  | peek k s next ih => exact fun a => ih a (hr a) (hm a)
  | pause next ih => exact ih hr hm
  | stall => trivial

theorem ReadsNothing.inOrder {r : Routine I α β} (hr : r.ReadsNothing) (reads : List (Read α)) : r.InOrder reads := by
  induction r with
  | done b => trivial
  | ask q next ih => exact fun a => ih a (hr a)
  | await k s next ih => exact hr.elim
  | peek k s next ih => exact hr.elim
  | pause next ih => exact ih hr
  | stall => trivial

end Routine

/-- The same of a computation, wherever it stands. -/
def Position.InOrder {I : Interface} {α : Type} [Staged α] (reads : List (Read α)) : Position I α → Prop
  | .active r => r.InOrder reads
  | .joined _ next => ∀ r, (next r).InOrder (reads ++ [.received r])
  | .paused _ r => r.InOrder reads
  | .asleep _ r => r.InOrder reads

namespace Task

variable {β γ : Type} {reads : List (Read Product)}

/-- A computation waits in the order of stages. -/
def InOrder (reads : List (Read Product)) (t : Task β) : Prop := Routine.InOrder reads t.run

theorem inOrder_pure (b : β) : InOrder reads (pure b : Task β) := trivial

theorem inOrder_throw (e : Failure) : InOrder reads (throw e : Task β) := trivial

theorem inOrder_bind {P : List (Read Product) → β → Prop} {t : Task β} {f : β → Task γ} (ht : InOrder reads t)
    (hr : Reads P reads t) (hf : ∀ rs b, P rs b → InOrder rs (f b)) : InOrder reads (t >>= f) := by
  refine Routine.InOrder.bind ht hr fun rs r h => ?_
  cases r with
  | error e => trivial
  | ok b => exact hf rs b (h b rfl)

/-- What asks the world only goes before the rest with the same reads. -/
theorem inOrder_bind_mk {r : Routine Outside Product (Except Failure β)} (hr : r.ReadsNothing) {f : β → Task γ}
    (hf : ∀ b, InOrder reads (f b)) : InOrder reads (ExceptT.mk r >>= f) :=
  inOrder_bind (hr.inOrder reads) (reads_mk hr) fun _ b h => h ▸ hf b

theorem inOrder_bind_lift {r : Routine Outside Product β} (hr : r.ReadsNothing) {f : β → Task γ}
    (hf : ∀ b, InOrder reads (f b)) : InOrder reads ((ExceptT.lift r : Task β) >>= f) :=
  inOrder_bind_mk (r := r.bind fun b => .done (.ok b)) (hr.bind fun _ => trivial) hf

theorem inOrder_bind_yield {f : Unit → Task γ} (hf : ∀ u, InOrder reads (f u)) : InOrder reads (Task.yield >>= f) :=
  inOrder_bind_lift (r := Routine.yield) trivial hf

variable {k : Key} {s : Stage}

theorem inOrder_need (h : ∀ x, .received (.ok x) ∈ reads → x.stage.rank < s.rank) :
    InOrder reads (ExceptT.mk (Routine.need k s)) := ⟨h, fun _ => trivial⟩

theorem inOrder_ingest (h : ∀ x, .received (.ok x) ∈ reads → x.stage.rank < Stage.tree.rank) :
    InOrder reads (Task.ingest k) := by
  refine inOrder_bind (inOrder_need h) (reads_need k .tree) fun rs a _ => ?_
  split
  · exact inOrder_pure _
  · exact inOrder_throw _

theorem inOrder_analysis (h : ∀ x, .received (.ok x) ∈ reads → x.stage.rank < Stage.analysis.rank) :
    InOrder reads (Task.analysis k) := by
  refine inOrder_bind (inOrder_need h) (reads_need k .analysis) fun rs a _ => ?_
  split
  · exact inOrder_pure _
  · exact inOrder_throw _

theorem inOrder_plan (h : ∀ x, .received (.ok x) ∈ reads → x.stage.rank < Stage.plan.rank) :
    InOrder reads (Task.plan k) := by
  refine inOrder_bind (inOrder_need h) (reads_need k .plan) fun rs a _ => ?_
  split
  · exact inOrder_pure _
  · exact inOrder_throw _

theorem inOrder_cachedIngest : InOrder reads (Task.cachedIngest k) := fun _ => trivial

end Task

namespace Pipeline

open ContractMigration.Task

theorem inOrder_ingestTask (k : Key) : Task.InOrder [] (ingestTask k) :=
  inOrder_bind_mk (readsNothing_ask _) fun _ => inOrder_bind_mk (readsNothing_ask _) fun _ =>
    inOrder_bind_mk (readsNothing_ask _) fun _ => inOrder_bind_lift (readsNothing_ask _) fun _ => inOrder_pure _

theorem inOrder_analysisTask (p : Pipeline) (k : Key) : Task.InOrder [] (p.analysisTask k) := by
  refine inOrder_bind (inOrder_ingest (by simp)) (reads_ingest k) ?_
  rintro _ ⟨t, i⟩ -
  refine inOrder_bind_lift (Routine.readsNothing_buffered _ (p.readsNothing_fetchInput k i) _) fun inputs => ?_
  exact inOrder_bind_lift (readsNothing_ask _) fun begun => inOrder_bind_yield fun _ =>
    inOrder_bind_lift (readsNothing_ask _) fun now => inOrder_pure _

theorem inOrder_planTask (p : Pipeline) (k : Key) : Task.InOrder [] (p.planTask k) := by
  refine inOrder_bind (inOrder_analysis (by simp)) (reads_analysis k) ?_
  rintro rs ⟨a, x⟩ -
  have hplan : ∀ reply, Task.InOrder rs (clock >>= fun now => pure (Product.plan (makePlan k x reply now), [a])) :=
    fun reply => inOrder_bind_lift (readsNothing_ask _) fun now => inOrder_pure _
  dsimp only
  split_ifs
  · refine inOrder_bind_lift (r := (Outside.ask _).bind fun r => .done (some r)) ?_ hplan
    exact (readsNothing_ask _).bind fun _ => trivial
  · exact hplan none

theorem inOrder_transformTask (p : Pipeline) (k : Key) : Task.InOrder [] (p.transformTask k) := by
  refine inOrder_bind (inOrder_analysis (by simp)) (reads_analysis k) ?_
  rintro _ ⟨a, x⟩ ⟨rfl, ha⟩
  have hearlier : ∀ y, .received (.ok y) ∈ [] ++ [Read.received (.ok a)] → y.stage.rank < Stage.plan.rank := by
    intro y hy
    obtain rfl : y = a := by simpa using hy
    rw [ha]
    decide
  refine inOrder_bind (inOrder_plan hearlier) (reads_plan k) ?_
  rintro _ ⟨b, y⟩ -
  refine inOrder_bind inOrder_cachedIngest (reads_cachedIngest k) ?_
  rintro _ i -
  refine inOrder_bind_lift (Routine.readsNothing_buffered _ (fun _ => p.readsNothing_transformFile k i _ _) _)
    fun outcomes => ?_
  exact inOrder_bind_yield fun _ => inOrder_bind_lift (readsNothing_ask _) fun now => inOrder_pure _

/-- The computation of each stage waits in the order of stages. -/
theorem inOrder_task (p : Pipeline) (k : Key) (st : Stage) : (p.task k st).InOrder [] := by
  cases st with
  | tree => exact inOrder_ingestTask k
  | analysis => exact p.inOrder_analysisTask k
  | plan => exact p.inOrder_planTask k
  | transform => exact p.inOrder_transformTask k

end Pipeline

end ContractMigration
