import ContractMigration.Plan.Json
import ContractMigration.Plan.Transform
import ContractMigration.Report.Json
import ContractMigration.Repository.Ingest
import ContractMigration.Session.Routine

/-! What the stages make, and what they ask of the collaborators outside. -/

namespace ContractMigration

/-- What a stage makes. -/
inductive Product
  | tree (i : Ingest)
  | analysis (a : Analysis)
  | plan (p : Plan)
  | transform (o : TransformOutcome Float)

namespace Product

def stage : Product → Stage
  | .tree _ => .tree
  | .analysis _ => .analysis
  | .plan _ => .plan
  | .transform _ => .transform

instance : Staged Product := ⟨stage⟩

def toJson : Product → Json.Value
  | .tree i => i.toJson
  | .analysis a => a.toJson
  | .plan p => p.toJson
  | .transform o => o.toJson

end Product

/-- What is asked of the host of a repository, the generator of recommendations, the transformer of code, and the
clock. -/
inductive Question
  | metadata (k : Key)
  | tree (k : Key)
  | prefetch (k : Key) (t : RepositoryTree)
  | content (k : Key) (path : String)
  | generate (s : AnalysisSummary)
  | transform (r : TransformRequest)
  | clock

/-- The kind of answer to a question. Only the clock never fails. -/
def Question.Answer : Question → Type
  | .metadata _ => Except Failure Metadata
  | .tree _ => Except Failure RepositoryTree
  | .prefetch _ _ => Except Failure (Option Sources)
  | .content _ _ => Except Failure String
  | .generate _ => Except Failure String
  | .transform _ => Except Failure String
  | .clock => Timestamp

/-- The collaborators outside. -/
abbrev Outside : Interface := ⟨Question, Question.Answer⟩

/-- Asks a collaborator. -/
def Outside.ask (q : Question) : Routine Outside Product q.Answer := Routine.ask q Routine.done

/-- A computation of a `β` that may fail. -/
abbrev Task (β : Type) := ExceptT Failure (Routine Outside Product) β

namespace Task

/-- Asks the host for its metadata. -/
def metadata (k : Key) : Task Metadata := ExceptT.mk (Outside.ask (.metadata k))

/-- Asks the host for the tree of a repository. -/
def tree (k : Key) : Task RepositoryTree := ExceptT.mk (Outside.ask (.tree k))

/-- Asks the host for the texts that it has at hand. -/
def prefetch (k : Key) (t : RepositoryTree) : Task (Option Sources) := ExceptT.mk (Outside.ask (.prefetch k t))

/-- Asks the clock. -/
def clock : Task Timestamp := ExceptT.lift (Outside.ask .clock)

/-- Waits for the tree of a repository. -/
def ingest (k : Key) : Task (Artifact Product × Ingest) := do
  let a ← ExceptT.mk (Routine.need k .tree)
  match a.value with
  | .tree i => pure (a, i)
  | v => throw (Artifact.mismatch .tree v.stage)

/-- Waits for the analysis of a repository. -/
def analysis (k : Key) : Task (Artifact Product × Analysis) := do
  let a ← ExceptT.mk (Routine.need k .analysis)
  match a.value with
  | .analysis x => pure (a, x)
  | v => throw (Artifact.mismatch .analysis v.stage)

/-- Waits for the plan of a repository. -/
def plan (k : Key) : Task (Artifact Product × Plan) := do
  let a ← ExceptT.mk (Routine.need k .plan)
  match a.value with
  | .plan x => pure (a, x)
  | v => throw (Artifact.mismatch .plan v.stage)

/-- Looks for the tree of a repository without waiting. -/
def cachedIngest (k : Key) : Task (Option Ingest) := do
  let a ← ExceptT.lift (Routine.look k .tree)
  pure (a.bind fun a => match a.value with
    | .tree i => some i
    | _ => none)

/-- Lets others go first. -/
def yield : Task Unit := ExceptT.lift Routine.yield

end Task

end ContractMigration
