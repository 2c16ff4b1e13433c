import ContractMigration.Pipeline.Basic
import ContractMigration.Proofs.Session.Answers
import Mathlib.Tactic.SplitIfs

/-! What the stages deliver whatever fails. As long as the host tells of a repository what it is, its tree and the texts at
hand, every computation ends well: a file that cannot be fetched is one entry among the failures of the analysis, a reply
of the generator that cannot be used leaves a warning in the plan, and a file whose source or new code cannot be had is
skipped with the reason, and with all its recommendations. -/

namespace ContractMigration

/-! ### Answers -/

/-- The host tells what a repository is, its tree, and the texts at hand; everything else may fail. -/
def Question.Fine : (q : Question) → q.Answer → Prop
  | .metadata _, r => ∃ m : Metadata, r = (Except.ok m : Except Failure Metadata)
  | .tree _, r => ∃ t : RepositoryTree, r = (Except.ok t : Except Failure RepositoryTree)
  | .prefetch _ _, r => ∃ s : Option Sources, r = (Except.ok s : Except Failure (Option Sources))
  | .content _ _, _ => True
  | .generate _, _ => True
  | .transform _, _ => True
  | .clock, _ => True

namespace Answered

def metadata (k : Key) (m : Metadata) : Answered Outside := ⟨.metadata k, (Except.ok m : Except Failure Metadata)⟩

def tree (k : Key) (t : RepositoryTree) : Answered Outside := ⟨.tree k, (Except.ok t : Except Failure RepositoryTree)⟩

def prefetch (k : Key) (t : RepositoryTree) (s : Option Sources) : Answered Outside :=
  ⟨.prefetch k t, (Except.ok s : Except Failure (Option Sources))⟩

def content (k : Key) (path : String) (r : Except Failure String) : Answered Outside := ⟨.content k path, r⟩

def generate (s : AnalysisSummary) (r : Except Failure String) : Answered Outside := ⟨.generate s, r⟩

def transform (q : TransformRequest) (r : Except Failure String) : Answered Outside := ⟨.transform q, r⟩

def clock (now : Timestamp) : Answered Outside := ⟨.clock, now⟩

end Answered

/-! ### Analyses -/

/-- What is listed for a source that cannot be used. -/
def SourceInput.failure? (maxBytes : ℕ) (i : SourceInput) : Option ParseFailure :=
  match i.extract maxBytes with
  | .ok _ => none
  | .error m => some ⟨i.path, m⟩

/-- A file with contracts in an analysis: what was answered for it, and what is listed for it among the failures. -/
inductive FileAnalysis (maxBytes : ℕ) (k : Key) (i : Ingest) (path : String) :
    List (Answered Outside) × Option ParseFailure → Prop
  | atHand (text : String) (h : i.source? path = some text) :
      FileAnalysis maxBytes k i path ([], SourceInput.failure? maxBytes ⟨path, .ok text⟩)
  | fetched (text : String) (h : i.source? path = none) :
      FileAnalysis maxBytes k i path ([.content k path (.ok text)], SourceInput.failure? maxBytes ⟨path, .ok text⟩)
  | unfetched (e : Failure) (h : i.source? path = none) :
      FileAnalysis maxBytes k i path ([.content k path (.error e)], some ⟨path, "fetch failed: " ++ e.message⟩)

/-! ### Plans -/

/-- A plan for an analysis by what the generator answered: unless that can be read, the plan has a warning. -/
inductive Planned (p : Pipeline) (a : Analysis) (plan : Plan) : List (Answered Outside) → Prop
  | noGenerator (h : p.hasGenerator = false) (warned : plan.warnings ≠ []) : Planned p a plan []
  | failed (e : Failure) (h : p.hasGenerator = true) (warned : plan.warnings ≠ []) :
      Planned p a plan [.generate a.summary (.error e)]
  | malformed (raw : String) (h : p.hasGenerator = true) (hraw : ∀ rs, readRecommendations raw ≠ .valid rs)
      (warned : plan.warnings ≠ []) : Planned p a plan [.generate a.summary (.ok raw)]
  | valid (raw : String) (h : p.hasGenerator = true) (hraw : readRecommendations raw = .valid plan.recommendations)
      (unwarned : plan.warnings = []) : Planned p a plan [.generate a.summary (.ok raw)]

/-! ### Transformed files -/

/-- The outcome of a file that stays as it is, for a reason. -/
structure FileOutcome.Skipped (path : String) (recommendations : List Recommendation) (reason : String)
    (o : FileOutcome Float) : Prop where
  filePath : o.filePath = path
  action : o.action = .skip
  skipReason : o.skipReason = some reason
  transformedCode : o.transformedCode = none
  appliedChanges : o.appliedChanges = []
  recommendationsTotal : o.recommendationsTotal = recommendations.length
  recommendationsSkipped : o.recommendationsSkipped = recommendations.length

/-- The text of a file that is to be transformed, with what was answered for it. -/
inductive Sourced (k : Key) (i : Option Ingest) (path : String) : List (Answered Outside) → String → Prop
  | atHand (text : String) (h : (i.bind fun i => i.source? path) = some text) : Sourced k i path [] text
  | fetched (text : String) (h : (i.bind fun i => i.source? path) = none) :
      Sourced k i path [.content k path (.ok text)] text

/-- A file that is to be transformed: what was answered for it, and its outcome. Unless there is a reply that can be read,
it is skipped. -/
inductive FileTransformation (p : Pipeline) (k : Key) (i : Option Ingest) (path : String)
    (recommendations : List Recommendation) : List (Answered Outside) × FileOutcome Float → Prop
  | noTransformer (o : FileOutcome Float) (h : p.hasTransformer = false)
      (ho : o.Skipped path recommendations "no code transformer configured") :
      FileTransformation p k i path recommendations ([], o)
  | noSource (e : Failure) (o : FileOutcome Float) (h : p.hasTransformer = true)
      (hi : (i.bind fun i => i.source? path) = none)
      (ho : o.Skipped path recommendations ("source fetch failed: " ++ e.message)) :
      FileTransformation p k i path recommendations ([.content k path (.error e)], o)
  | failed (given : List (Answered Outside)) (text : String) (e : Failure) (o : FileOutcome Float)
      (h : p.hasTransformer = true) (hs : Sourced k i path given text)
      (ho : o.Skipped path recommendations ("transformer failed: " ++ e.message)) :
      FileTransformation p k i path recommendations
        (given ++ [.transform ⟨k, path, text, recommendations⟩ (.error e)], o)
  | malformed (given : List (Answered Outside)) (text raw head reason : String) (o : FileOutcome Float)
      (h : p.hasTransformer = true) (hs : Sourced k i path given text) (hraw : readResponse raw = .malformed head reason)
      (ho : o.Skipped path recommendations ("malformed transformer output: " ++ reason)) :
      FileTransformation p k i path recommendations (given ++ [.transform ⟨k, path, text, recommendations⟩ (.ok raw)], o)
  | answered (given : List (Answered Outside)) (text raw : String) (response : TransformResponse)
      (h : p.hasTransformer = true) (hs : Sourced k i path given text) (hraw : readResponse raw = .valid response) :
      FileTransformation p k i path recommendations
        (given ++ [.transform ⟨k, path, text, recommendations⟩ (.ok raw)], fileOutcome path recommendations response)

/-! ### Stages -/

/-- What was taken in, if this is that. -/
def Product.ingest? : Product → Option Ingest
  | .tree i => some i
  | _ => none

/-- What the computation of a stage makes of what it has read and was answered. Files are only fetched and transformed where
the settings leave room for one at a time at least. -/
inductive Delivers (p : Pipeline) (k : Key) : Stage → List (Read Product) → List (Answered Outside) → Product → Prop
  | tree (metadata : Metadata) (tree : RepositoryTree) (sources : Option Sources) (now : Timestamp) :
      Delivers p k .tree [] [.metadata k metadata, .tree k tree, .prefetch k tree sources, .clock now]
        (.tree ⟨k, metadata, tree, sources, now⟩)
  | analysis (T : Artifact Product) (i : Ingest) (parts : List (List (Answered Outside) × Option ParseFailure))
      (begun now : Timestamp) (a : Analysis) (room : 0 < p.config.fetchConcurrency) (hT : T.value = .tree i)
      (hparts : List.Forall₂ (FileAnalysis p.config.maxSourceBytes k i) (i.tree.contractFiles.map FileNode.path) parts)
      (sourceFiles : a.sourceFiles = i.tree.contractFiles.map FileNode.path)
      (parseErrors : a.parseErrors = parts.filterMap Prod.snd) :
      Delivers p k .analysis [.received (.ok T)] (parts.flatMap Prod.fst ++ [.clock begun, .clock now]) (.analysis a)
  | plan (A : Artifact Product) (a : Analysis) (given : List (Answered Outside)) (now : Timestamp) (plan : Plan)
      (hA : A.value = .analysis a) (planned : Planned p a plan given) :
      Delivers p k .plan [.received (.ok A)] (given ++ [.clock now]) (.plan plan)
  | transform (A P : Artifact Product) (a : Analysis) (plan : Plan) (t : Option (Artifact Product))
      (parts : List (List (Answered Outside) × FileOutcome Float)) (now : Timestamp) (o : TransformOutcome Float)
      (room : 0 < p.config.transformConcurrency) (hA : A.value = .analysis a) (hP : P.value = .plan plan)
      (hparts : List.Forall₂ (fun g => FileTransformation p k (t.bind fun x => x.value.ingest?) g.1 g.2)
        (Grouping.of a.sourceFiles plan.warnings plan.recommendations).groups parts)
      (files : o.transformation.files = parts.map Prod.snd) :
      Delivers p k .transform [.received (.ok A), .received (.ok P), .looked k .tree t]
        (parts.flatMap Prod.fst ++ [.clock now]) (.transform o)

theorem Delivers.room {p : Pipeline} {k : Key} {st : Stage} {reads : List (Read Product)} {given : List (Answered Outside)}
    {x : Product} (h : Delivers p k st reads given x) :
    (st = .analysis → 0 < p.config.fetchConcurrency) ∧ (st = .transform → 0 < p.config.transformConcurrency) := by
  cases h with
  | tree => exact ⟨nofun, nofun⟩
  | analysis T i parts begun now a room => exact ⟨fun _ => room, nofun⟩
  | plan => exact ⟨nofun, nofun⟩
  | transform A P a plan t parts now o room => exact ⟨nofun, fun _ => room⟩

namespace Task

variable {β γ : Type} {st : Stage} {P : List (Read Product) → List (Answered Outside) → β → Prop}
  {Q : List (Read Product) → List (Answered Outside) → γ → Prop} {reads : List (Read Product)}
  {given : List (Answered Outside)}

/-! ### Computations while all goes well -/

/-- While answers are fine and earlier stages are made, a computation for a stage ends well, with what fits to what it has
read and was answered. -/
def Fares (st : Stage) (P : List (Read Product) → List (Answered Outside) → β → Prop) (reads : List (Read Product))
    (given : List (Answered Outside)) (t : Task β) : Prop :=
  Routine.Fares Question.Fine (·.rank < st.rank) (fun reads given r => ∃ b, r = .ok b ∧ P reads given b) reads given t.run

end Task

namespace Pipeline

open ContractMigration.Task

/-! ### Files -/

end Pipeline

end ContractMigration
