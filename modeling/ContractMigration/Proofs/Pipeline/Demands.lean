import ContractMigration.Proofs.Plan.Grouping
import ContractMigration.Proofs.Pipeline.Tasks
import ContractMigration.Proofs.Session.Conduct

/-! What the computation of each stage demands of others: it waits for the stage before it, and the transformed files for an
analysis and a plan, and it fails by itself only if a stage does not hold what it should; the host is asked once for
metadata and once for the tree, by the computation of a tree; the generator once, by that of a plan; and the transformer
once for each file, by that of the transformed files. -/

namespace ContractMigration

/-- The stages that the computation of a stage waits for. -/
def Stage.needs : Stage → List Stage
  | .tree => []
  | .analysis => [.tree]
  | .plan => [.analysis]
  | .transform => [.analysis, .plan]

/-- A service of a collaborator that is dear; that of the transformer is told apart by file. -/
inductive Service
  | metadata
  | tree
  | generator
  | transformer (path : String)

/-- The stage whose computation uses a service. -/
def Service.stage : Service → Stage
  | metadata => .tree
  | tree => .tree
  | generator => .plan
  | transformer _ => .transform

/-- How often the computation of a stage may use a service. -/
def Service.quota (c : Service) (st : Stage) : ℕ := if c.stage = st then 1 else 0

/-- Whether a question is a use of a service. -/
def Question.uses : Service → Question → Bool
  | .metadata, .metadata _ => true
  | .tree, .tree _ => true
  | .generator, .generate _ => true
  | .transformer path, .transform r => r.filePath == path
  | _, _ => false

namespace Task

variable {β γ : Type}

/-! ### Stages that are waited for -/

/-- As long as what it waits for fails in some way only, so does a computation, and it waits for some stages only. -/
def Relies (B : Failure → Prop) (k : Key) (stages : List Stage) (t : Task β) : Prop :=
  Routine.Relies (OnlyFails B) (fun j st => j = k ∧ st ∈ stages) (OnlyFails B) t.run

variable {B : Failure → Prop} {k : Key} {stages : List Stage}

theorem relies_pure (b : β) : Relies B k stages (pure b : Task β) := nofun

theorem relies_throw {e : Failure} (he : B e) : Relies B k stages (throw e : Task β) := by
  rintro e' ⟨⟩
  exact he

theorem relies_bind {t : Task β} {f : β → Task γ} (ht : Relies B k stages t) (hf : ∀ b, Relies B k stages (f b)) :
    Relies B k stages (t >>= f) := by
  refine Routine.Relies.bind ht fun r hr => ?_
  cases r with
  | error e =>
    rintro e' ⟨⟩
    exact hr e rfl
  | ok b => exact hf b

/-- A computation that asks the world may fail as that does. -/
theorem relies_mk (hB : ∀ e, B e) {r : Routine Outside Product (Except Failure β)} (hr : r.ReadsNothing) :
    Relies B k stages (ExceptT.mk r) := hr.relies fun _ e _ => hB e

theorem relies_lift {r : Routine Outside Product β} (hr : r.ReadsNothing) :
    Relies B k stages (ExceptT.lift r : Task β) :=
  (hr.relies (Q := fun _ => True) fun _ => trivial).bind fun _ _ => nofun

theorem relies_need {st : Stage} (hst : st ∈ stages) : Relies B k stages (ExceptT.mk (Routine.need k st)) :=
  ⟨⟨rfl, hst⟩, fun _ hr => hr⟩

theorem relies_cachedIngest (k : Key) : Relies B k stages (Task.cachedIngest k) := fun _ => nofun

variable (hB : ∀ wanted found, B (Artifact.mismatch wanted found))

include hB

theorem relies_ingest (hst : .tree ∈ stages) : Relies B k stages (Task.ingest k) := by
  refine relies_bind (relies_need hst) fun a => ?_
  split
  · exact relies_pure _
  · exact relies_throw (hB _ _)

theorem relies_analysis (hst : .analysis ∈ stages) : Relies B k stages (Task.analysis k) := by
  refine relies_bind (relies_need hst) fun a => ?_
  split
  · exact relies_pure _
  · exact relies_throw (hB _ _)

theorem relies_plan (hst : .plan ∈ stages) : Relies B k stages (Task.plan k) := by
  refine relies_bind (relies_need hst) fun a => ?_
  split
  · exact relies_pure _
  · exact relies_throw (hB _ _)

end Task

namespace Task

variable {β γ : Type} {c : Service} {m n : ℕ}

/-! ### Services -/

/-- A computation uses a service at most `n` times. -/
def Uses (c : Service) (n : ℕ) (t : Task β) : Prop := Routine.AtMost (Question.uses c) n t.run

theorem uses_mono {t : Task β} (ht : Uses c m t) (hmn : m ≤ n) : Uses c n t := Routine.AtMost.mono ht hmn

theorem uses_pure (b : β) : Uses c n (pure b : Task β) := trivial

theorem uses_throw (e : Failure) : Uses c n (throw e : Task β) := trivial

theorem uses_bind {t : Task β} {f : β → Task γ} (ht : Uses c m t) (hf : ∀ b, Uses c n (f b)) :
    Uses c (m + n) (t >>= f) := by
  refine Routine.AtMost.bind ht fun r => ?_
  cases r with
  | error e => trivial
  | ok b => exact hf b

theorem atMost_ask (c : Service) (q : Question) :
    (Outside.ask q).AtMost (Question.uses c) (Question.uses c q).toNat := by
  rw [Outside.ask, Routine.AtMost]
  split_ifs with h
  · rw [h]
    exact ⟨Nat.zero_lt_one, fun _ => trivial⟩
  · exact fun _ => trivial

theorem atMost_ask_of_not_uses {q : Question} (hq : Question.uses c q = false) :
    (Outside.ask q).AtMost (Question.uses c) 0 := by
  have h := atMost_ask c q
  rwa [hq] at h

theorem uses_mk {r : Routine Outside Product (Except Failure β)} (hr : r.AtMost (Question.uses c) n) :
    Uses c n (ExceptT.mk r) := hr

theorem uses_lift {r : Routine Outside Product β} (hr : r.AtMost (Question.uses c) n) :
    Uses c n (ExceptT.lift r : Task β) := Routine.AtMost.bind (n := 0) hr fun _ => trivial

theorem uses_clock : Uses c 0 Task.clock := uses_lift (atMost_ask_of_not_uses (by cases c <;> rfl))

theorem uses_need (k : Key) (st : Stage) : Uses c 0 (ExceptT.mk (Routine.need k st)) := fun _ => trivial

theorem uses_ingest (k : Key) : Uses c 0 (Task.ingest k) := by
  refine uses_bind (n := 0) (uses_need k .tree) fun a => ?_
  split
  · exact uses_pure _
  · exact uses_throw _

theorem uses_analysis (k : Key) : Uses c 0 (Task.analysis k) := by
  refine uses_bind (n := 0) (uses_need k .analysis) fun a => ?_
  split
  · exact uses_pure _
  · exact uses_throw _

theorem uses_plan (k : Key) : Uses c 0 (Task.plan k) := by
  refine uses_bind (n := 0) (uses_need k .plan) fun a => ?_
  split
  · exact uses_pure _
  · exact uses_throw _

theorem uses_cachedIngest (k : Key) : Uses c 0 (Task.cachedIngest k) := fun _ => trivial

theorem uses_yield : Uses c 0 Task.yield := trivial

end Task

namespace Pipeline

open ContractMigration.Task

variable {c : Service}

/-- A stage fails by itself only where a stage before it does not hold what it should, and the computation of a tree as the
host does. -/
theorem relies_task {B : Failure → Prop} (hB : ∀ wanted found, B (Artifact.mismatch wanted found)) (p : Pipeline)
    (k : Key) (st : Stage) (hst : st = .tree → ∀ e, B e) :
    (p.task k st).Relies (OnlyFails B) (fun j t => j = k ∧ t ∈ st.needs) (OnlyFails B) := by
  cases st with
  | tree =>
    have hask : ∀ {β : Type} (r : Routine Outside Product (Except Failure β)), r.ReadsNothing →
        Task.Relies B k [] (ExceptT.mk r) := fun r hr => relies_mk (hst rfl) hr
    exact relies_bind (hask _ (readsNothing_ask _)) fun metadata => relies_bind (hask _ (readsNothing_ask _)) fun tree =>
      relies_bind (hask _ (readsNothing_ask _)) fun sources => relies_bind (relies_lift (readsNothing_ask _)) fun now =>
        relies_pure _
  | analysis =>
    show Task.Relies B k [.tree] (p.analysisTask k)
    refine relies_bind (relies_ingest hB (by simp)) ?_
    rintro ⟨t, i⟩
    refine relies_bind (relies_lift (Routine.readsNothing_buffered _ (p.readsNothing_fetchInput k i) _)) fun inputs => ?_
    refine relies_bind (relies_lift (readsNothing_ask _)) fun begun => ?_
    refine relies_bind (relies_lift trivial) fun _ => ?_
    exact relies_bind (relies_lift (readsNothing_ask _)) fun now => relies_pure _
  | plan =>
    show Task.Relies B k [.analysis] (p.planTask k)
    refine relies_bind (relies_analysis hB (by simp)) ?_
    rintro ⟨a, x⟩
    have hplan : ∀ reply, Task.Relies B k [.analysis]
        (clock >>= fun now => pure (Product.plan (makePlan k x reply now), [a])) := fun reply =>
      relies_bind (relies_lift (readsNothing_ask _)) fun now => relies_pure _
    dsimp only
    split_ifs
    · exact relies_bind (relies_lift ((readsNothing_ask _).bind fun _ => trivial)) hplan
    · exact hplan none
  | transform =>
    show Task.Relies B k [.analysis, .plan] (p.transformTask k)
    refine relies_bind (relies_analysis hB (by simp)) ?_
    rintro ⟨a, x⟩
    refine relies_bind (relies_plan hB (by simp)) ?_
    rintro ⟨b, y⟩
    refine relies_bind (relies_cachedIngest k) fun i => ?_
    refine relies_bind (relies_lift (Routine.readsNothing_buffered _ (fun _ => p.readsNothing_transformFile k i _ _) _))
      fun outcomes => ?_
    refine relies_bind (relies_lift trivial) fun _ => ?_
    exact relies_bind (relies_lift (readsNothing_ask _)) fun now => relies_pure _

/-! ### Uses of services -/

theorem atMost_fetchInput (p : Pipeline) (k : Key) (i : Ingest) (path : String) :
    (p.fetchInput k i path).AtMost (Question.uses c) 0 := by
  unfold fetchInput
  split
  · trivial
  · split_ifs
    · exact (atMost_ask_of_not_uses (by cases c <;> rfl)).bind (n := 0) fun _ => trivial
    · trivial

theorem atMost_fetchSource (p : Pipeline) (k : Key) (i : Option Ingest) (path : String) :
    (p.fetchSource k i path).AtMost (Question.uses c) 0 := by
  unfold fetchSource
  split
  · trivial
  · split_ifs
    · exact (atMost_ask_of_not_uses (by cases c <;> rfl)).bind (n := 0) fun _ => trivial
    · trivial

/-- How often a service is used for one file that is transformed. -/
def share : Service → String → ℕ
  | .transformer path, file => if file = path then 1 else 0
  | _, _ => 0

theorem atMost_transformFile (p : Pipeline) (k : Key) (i : Option Ingest) (path : String)
    (recommendations : List Recommendation) :
    (p.transformFile k i path recommendations).AtMost (Question.uses c) (share c path) := by
  unfold transformFile
  split_ifs
  · rw [← Nat.zero_add (share c path)]
    refine (p.atMost_fetchSource k i path).bind fun source => ?_
    split
    · trivial
    · next text =>
      have hask := atMost_ask c (.transform ⟨k, path, text, recommendations⟩)
      have hshare : (Question.uses c (.transform ⟨k, path, text, recommendations⟩)).toNat = share c path := by
        cases c with
        | transformer file => by_cases h : path = file <;> simp [Question.uses, share, h]
        | _ => rfl
      rw [hshare] at hask
      exact hask.bind (n := 0) fun _ => trivial
  · trivial

theorem sum_share_le {files : List String} (hn : files.Nodup) : (files.map (share c)).sum ≤ 1 := by
  cases c with
  | transformer path =>
    have hcount : (files.map (share (.transformer path))).sum = files.count path := by
      induction files with
      | nil => rfl
      | cons f rest ih =>
        rw [List.map_cons, List.sum_cons, ih hn.of_cons, List.count_cons, Nat.add_comm]
        simp [share]
    rw [hcount]
    exact List.nodup_iff_count_le_one.mp hn path
  | metadata | tree | generator =>
    have hnone : ∀ c' : Service, share c' = (fun _ => 0) → (files.map (share c')).sum ≤ 1 := fun c' h => by simp [h]
    exact hnone _ rfl

theorem uses_ingestTask (c : Service) (k : Key) : Uses c (c.quota .tree) (ingestTask k) := by
  have hsources : ∀ tree metadata, Uses c 0 (do
      let sources ← Task.prefetch k tree
      let now ← Task.clock
      pure (Product.tree ⟨k, metadata, tree, sources, now⟩, ([] : List (Artifact Product)))) := fun tree metadata =>
    uses_bind (n := 0) (uses_mk (atMost_ask_of_not_uses (by cases c <;> rfl))) fun sources =>
      uses_bind (n := 0) uses_clock fun now => uses_pure _
  refine uses_mono (uses_bind (uses_mk (atMost_ask c (.metadata k))) fun metadata =>
    uses_bind (uses_mk (atMost_ask c (.tree k))) fun tree => hsources tree metadata) ?_
  cases c <;> simp [Question.uses, Service.quota, Service.stage]

theorem uses_analysisTask (c : Service) (p : Pipeline) (k : Key) : Uses c 0 (p.analysisTask k) := by
  refine uses_bind (n := 0) (uses_ingest k) ?_
  rintro ⟨t, i⟩
  have hinputs : (p.fetchInputs k i).AtMost (Question.uses c) 0 := by
    have h := Routine.AtMost.buffered p.config.fetchConcurrency (p.atMost_fetchInput (c := c) k i)
      (i.tree.contractFiles.map FileNode.path)
    exact h.mono (by simp [Function.comp_def])
  refine uses_bind (n := 0) (uses_lift hinputs) fun inputs => ?_
  refine uses_bind (n := 0) uses_clock fun begun => ?_
  exact uses_bind (n := 0) uses_yield fun _ => uses_bind (n := 0) uses_clock fun now => uses_pure _

theorem uses_planTask (c : Service) (p : Pipeline) (k : Key) : Uses c (c.quota .plan) (p.planTask k) := by
  rw [← Nat.zero_add (c.quota .plan)]
  refine uses_bind (uses_analysis k) ?_
  rintro ⟨a, x⟩
  have hplan : ∀ reply, Uses c 0 (clock >>= fun now => pure (Product.plan (makePlan k x reply now), [a])) := fun reply =>
    uses_bind (n := 0) uses_clock fun now => uses_pure _
  have hasked : (Question.uses c (.generate x.summary)).toNat ≤ c.quota .plan := by
    cases c <;> simp [Question.uses, Service.quota, Service.stage]
  dsimp only
  split_ifs
  · exact uses_mono (uses_bind (uses_lift ((atMost_ask c (.generate x.summary)).bind (n := 0) fun _ => trivial)) hplan)
      hasked
  · exact uses_mono (hplan none) (Nat.zero_le _)

theorem uses_transformTask (c : Service) (p : Pipeline) (k : Key) : Uses c (c.quota .transform) (p.transformTask k) := by
  rw [← Nat.zero_add (c.quota .transform)]
  refine uses_bind (uses_analysis k) ?_
  rintro ⟨a, x⟩
  rw [← Nat.zero_add (c.quota .transform)]
  refine uses_bind (uses_plan k) ?_
  rintro ⟨b, y⟩
  rw [← Nat.zero_add (c.quota .transform)]
  refine uses_bind (uses_cachedIngest k) fun i => ?_
  set groups := (Grouping.of x.sourceFiles y.warnings y.recommendations).groups
  have hfiles := Routine.AtMost.buffered p.config.transformConcurrency
    (f := fun g : String × List Recommendation => p.transformFile k i g.1 g.2) (w := fun g => share c g.1)
    (fun g => p.atMost_transformFile (c := c) k i g.1 g.2) groups
  have hquota : (groups.map fun g => share c g.1).sum ≤ c.quota .transform := by
    have hle := sum_share_le (c := c) (Grouping.nodup_files x.sourceFiles y.warnings y.recommendations)
    rw [List.map_map] at hle
    cases c with
    | transformer path => exact hle
    | metadata | tree | generator => simp [share]
  refine uses_mono (uses_bind (n := 0) (uses_lift hfiles) fun outcomes => ?_) hquota
  exact uses_bind (n := 0) uses_yield fun _ => uses_bind (n := 0) uses_clock fun now => uses_pure _

/-- The computation of a stage uses a service once if it is for this stage, and not at all otherwise. -/
theorem uses_task (c : Service) (p : Pipeline) (k : Key) (st : Stage) :
    (p.task k st).AtMost (Question.uses c) (c.quota st) := by
  cases st with
  | tree => exact uses_ingestTask c k
  | analysis => exact uses_mono (uses_analysisTask c p k) (Nat.zero_le _)
  | plan => exact uses_planTask c p k
  | transform => exact uses_transformTask c p k

end Pipeline

end ContractMigration
