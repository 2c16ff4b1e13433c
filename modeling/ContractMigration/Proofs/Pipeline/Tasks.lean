import ContractMigration.Pipeline.Basic
import ContractMigration.Proofs.Session.Reading
import Mathlib.Tactic.SplitIfs

/-! What the computation of each stage reads, and what it says it is made from. A tree reads nothing; an analysis waits for
a tree and a plan for an analysis, and each is made from that; the transformed files come from an analysis and a plan,
waited for in this order, and from a look at the tree that is not told as a source. -/

namespace ContractMigration

/-- What a stage of a repository has read, and what it is made from. -/
inductive DerivedBy (k : Key) : Stage → List (Read Product) → List (Artifact Product) → Prop
  | tree : DerivedBy k .tree [] []
  | analysis (t : Artifact Product) (staged : t.stage = .tree) : DerivedBy k .analysis [.received (.ok t)] [t]
  | plan (a : Artifact Product) (staged : a.stage = .analysis) : DerivedBy k .plan [.received (.ok a)] [a]
  | transform (a p : Artifact Product) (t : Option (Artifact Product)) (analysed : a.stage = .analysis)
      (planned : p.stage = .plan) :
      DerivedBy k .transform [.received (.ok a), .received (.ok p), .looked k .tree t] [a, p]

/-- A stage is made from earlier ones. -/
theorem DerivedBy.earlier {k : Key} {s : Stage} {reads : List (Read Product)} {sources : List (Artifact Product)}
    (h : DerivedBy k s reads sources) : ∀ a ∈ sources, a.stage.rank < s.rank := by
  cases h with
  | tree => simp
  | analysis t ht => simp [ht, Stage.rank]
  | plan a ha => simp [ha, Stage.rank]
  | transform a p t ha hp => simp [ha, hp, Stage.rank]

/-- What a stage is made from was received. -/
theorem DerivedBy.received {k : Key} {s : Stage} {reads : List (Read Product)} {sources : List (Artifact Product)}
    (h : DerivedBy k s reads sources) : ∀ a ∈ sources, .received (.ok a) ∈ reads := by
  cases h <;> simp

namespace Task

variable {β γ : Type} {P : List (Read Product) → β → Prop} {Q : List (Read Product) → γ → Prop}
  {reads : List (Read Product)}

/-- Unless it fails, a computation ends with something that fits to what it has read by then. -/
def Reads (P : List (Read Product) → β → Prop) (reads : List (Read Product)) (t : Task β) : Prop :=
  Routine.Meets (fun rs r => ∀ b, r = .ok b → P rs b) reads t.run

theorem reads_pure {b : β} (h : P reads b) : Reads P reads (pure b : Task β) := by
  rintro b' ⟨⟩
  exact h

theorem reads_throw (e : Failure) : Reads P reads (throw e : Task β) := by
  rintro b ⟨⟩

theorem reads_bind {t : Task β} {f : β → Task γ} (ht : Reads P reads t)
    (hf : ∀ rs b, P rs b → Reads Q rs (f b)) : Reads Q reads (t >>= f) := by
  refine Routine.Meets.bind ht fun rs r hr => ?_
  cases r with
  | error e => rintro b ⟨⟩
  | ok b => exact hf rs b (hr b rfl)

/-- What asks the world only has read nothing more. -/
theorem reads_mk {r : Routine Outside Product (Except Failure β)} (hr : r.ReadsNothing) :
    Reads (fun rs _ => rs = reads) reads (ExceptT.mk r) := hr.meets fun _ _ _ => rfl

theorem reads_lift {r : Routine Outside Product β} (hr : r.ReadsNothing) :
    Reads (fun rs _ => rs = reads) reads (ExceptT.lift r : Task β) := reads_mk (hr.bind fun _ => trivial)

theorem readsNothing_ask (q : Question) : (Outside.ask q).ReadsNothing := fun _ => trivial

/-! ### Sources -/

theorem eq_ok_of_bind_ofStage {r : Except Failure (Artifact Product)} {s : Stage} {a : Artifact Product}
    (h : r.bind (Artifact.ofStage s) = .ok a) : r = .ok a ∧ a.stage = s := by
  cases r with
  | error e => cases h
  | ok b =>
    have h' : Artifact.ofStage s b = .ok a := h
    rw [Artifact.ofStage] at h'
    split_ifs at h' with hs
    obtain rfl := Except.ok.inj h'
    exact ⟨rfl, hs⟩

theorem reads_need (k : Key) (s : Stage) :
    Reads (fun rs a => rs = reads ++ [.received (.ok a)] ∧ a.stage = s) reads (ExceptT.mk (Routine.need k s)) := by
  intro r a h
  obtain ⟨rfl, hs⟩ := eq_ok_of_bind_ofStage h
  exact ⟨rfl, hs⟩

theorem reads_ingest (k : Key) :
    Reads (fun rs x => rs = reads ++ [.received (.ok x.1)] ∧ x.1.stage = .tree) reads (Task.ingest k) := by
  refine reads_bind (reads_need k .tree) fun rs a h => ?_
  split
  · exact reads_pure h
  · exact reads_throw _

theorem reads_analysis (k : Key) :
    Reads (fun rs x => rs = reads ++ [.received (.ok x.1)] ∧ x.1.stage = .analysis) reads (Task.analysis k) := by
  refine reads_bind (reads_need k .analysis) fun rs a h => ?_
  split
  · exact reads_pure h
  · exact reads_throw _

theorem reads_plan (k : Key) :
    Reads (fun rs x => rs = reads ++ [.received (.ok x.1)] ∧ x.1.stage = .plan) reads (Task.plan k) := by
  refine reads_bind (reads_need k .plan) fun rs a h => ?_
  split
  · exact reads_pure h
  · exact reads_throw _

theorem reads_cachedIngest (k : Key) :
    Reads (fun rs _ => ∃ t, rs = reads ++ [.looked k .tree t]) reads (Task.cachedIngest k) := by
  intro t b _
  exact ⟨t, rfl⟩

end Task

/-! ### Stages -/

namespace Pipeline

theorem readsNothing_fetchInput (p : Pipeline) (k : Key) (i : Ingest) (path : String) :
    (p.fetchInput k i path).ReadsNothing := by
  unfold fetchInput
  split
  · trivial
  · split_ifs
    · exact fun _ => trivial
    · trivial

theorem readsNothing_fetchSource (p : Pipeline) (k : Key) (i : Option Ingest) (path : String) :
    (p.fetchSource k i path).ReadsNothing := by
  unfold fetchSource
  split
  · trivial
  · split_ifs
    · exact fun _ => trivial
    · trivial

theorem readsNothing_transformFile (p : Pipeline) (k : Key) (i : Option Ingest) (path : String)
    (recommendations : List Recommendation) : (p.transformFile k i path recommendations).ReadsNothing := by
  unfold transformFile
  split_ifs
  · refine (p.readsNothing_fetchSource k i path).bind fun source => ?_
    split
    · trivial
    · exact fun _ => trivial
  · trivial

/-- A computation ends with a value of its stage, made from what it has read, or it fails. -/
def Derives (k : Key) (s : Stage) (reads : List (Read Product)) (r : Made Product) : Prop :=
  ∀ x, r = .ok x → Staged.stage x.1 = s ∧ DerivedBy k s reads x.2

open ContractMigration.Task

theorem derives_ingestTask (k : Key) : (ingestTask k).run.Meets (Derives k .tree) [] := by
  refine reads_bind (reads_mk (readsNothing_ask _)) ?_
  rintro _ metadata rfl
  refine reads_bind (reads_mk (readsNothing_ask _)) ?_
  rintro _ tree rfl
  refine reads_bind (reads_mk (readsNothing_ask _)) ?_
  rintro _ sources rfl
  refine reads_bind (reads_lift (readsNothing_ask _)) ?_
  rintro _ now rfl
  exact reads_pure ⟨rfl, .tree⟩

theorem derives_analysisTask (p : Pipeline) (k : Key) : (p.analysisTask k).run.Meets (Derives k .analysis) [] := by
  refine reads_bind (reads_ingest k) ?_
  rintro _ ⟨t, i⟩ ⟨rfl, ht⟩
  refine reads_bind (reads_lift (Routine.readsNothing_buffered _ (p.readsNothing_fetchInput k i) _)) ?_
  rintro _ inputs rfl
  refine reads_bind (reads_lift (readsNothing_ask _)) ?_
  rintro _ begun rfl
  refine reads_bind (reads_lift trivial) ?_
  rintro _ _ rfl
  refine reads_bind (reads_lift (readsNothing_ask _)) ?_
  rintro _ now rfl
  exact reads_pure ⟨rfl, .analysis t ht⟩

theorem derives_planTask (p : Pipeline) (k : Key) : (p.planTask k).run.Meets (Derives k .plan) [] := by
  refine reads_bind (reads_analysis k) ?_
  rintro _ ⟨a, x⟩ ⟨rfl, ha⟩
  have hplan : ∀ reply, Reads (fun rs b => Staged.stage b.1 = .plan ∧ DerivedBy k .plan rs b.2) [.received (.ok a)]
      (clock >>= fun now => pure (Product.plan (makePlan k x reply now), [a])) := by
    intro reply
    refine reads_bind (reads_lift (readsNothing_ask _)) ?_
    rintro _ now rfl
    exact reads_pure ⟨rfl, .plan a ha⟩
  dsimp only
  split_ifs
  · refine reads_bind (reads_lift ((readsNothing_ask _).bind fun _ => trivial)) ?_
    rintro _ reply rfl
    exact hplan reply
  · exact hplan none

theorem derives_transformTask (p : Pipeline) (k : Key) : (p.transformTask k).run.Meets (Derives k .transform) [] := by
  refine reads_bind (reads_analysis k) ?_
  rintro _ ⟨a, x⟩ ⟨rfl, ha⟩
  refine reads_bind (reads_plan k) ?_
  rintro _ ⟨b, y⟩ ⟨rfl, hb⟩
  refine reads_bind (reads_cachedIngest k) ?_
  rintro _ i ⟨t, rfl⟩
  refine reads_bind (reads_lift (Routine.readsNothing_buffered _ (fun _ => p.readsNothing_transformFile k i _ _) _)) ?_
  rintro _ outcomes rfl
  refine reads_bind (reads_lift trivial) ?_
  rintro _ _ rfl
  refine reads_bind (reads_lift (readsNothing_ask _)) ?_
  rintro _ now rfl
  exact reads_pure ⟨rfl, .transform a b t ha hb⟩

/-- Whatever the world answers, the computation of a stage ends with a value of that stage, made from what it has read. -/
theorem derives_task (p : Pipeline) (k : Key) (s : Stage) : (p.task k s).Meets (Derives k s) [] := by
  cases s with
  | tree => exact derives_ingestTask k
  | analysis => exact p.derives_analysisTask k
  | plan => exact p.derives_planTask k
  | transform => exact p.derives_transformTask k

end Pipeline

end ContractMigration
