import ContractMigration.Plan.Transform
import ContractMigration.Report.Consistency
import ContractMigration.Report.Score

/-! What became of each file, what the whole transformation amounts to, and how far it can be trusted. -/

namespace ContractMigration

/-- What became of a file. -/
structure FileOutcome (α : Type) where
  filePath : String
  action : TransformAction
  appliedChanges : List AppliedChange
  recommendationsTotal : Nat
  recommendationsSkipped : Nat
  confidence : α
  warnings : List String
  skipReason : Option String
  transformedCode : Option String

/-- What became of all files. -/
structure TransformationReport (α : Type) where
  key : Key
  files : List (FileOutcome α)
  filesModified : Nat
  filesSkipped : Nat
  totalChanges : Nat
  overallConfidence : α
  warnings : List String
  consistency : ConsistencyReport
  createdAt : Timestamp

/-- How far a transformation can be trusted, in three steps. -/
inductive Bucket
  | high
  | medium
  | low
  deriving DecidableEq

namespace Bucket

def name : Bucket → String
  | .high => "high"
  | .medium => "medium"
  | .low => "low"

def all : List Bucket := [.high, .medium, .low]

def reader : Json.Reader Bucket := Json.variant (all.map fun b => ⟨b, [b.name]⟩) none

end Bucket

/-- The verdict on a transformation. -/
structure ValidationReport (α : Type) where
  errors : List String
  warnings : List String
  confidenceScore : α
  confidenceBucket : Bucket
  passed : Bool
  nextSteps : List String

/-- A transformation with its verdict. -/
structure TransformOutcome (α : Type) where
  transformation : TransformationReport α
  validation : ValidationReport α

section

variable {α : Type} [Score α]

/-! ### Single files -/

/-- The level of a change: its own, else that of its recommendation, else the middle one. -/
def AppliedChange.levelAmong (c : AppliedChange) (recommendations : List Recommendation) : Level :=
  match c.level, c.recommendation.bind (recommendations[·]?) with
  | some l, _ => l
  | none, some r => r.level
  | none, none => .medium

/-- The mean weight of the changes, scaled by the share of recommendations that were not skipped. -/
def fileConfidence (applied : List AppliedChange) (recommendations : List Recommendation) (skipped : Nat) : α :=
  if applied.isEmpty then Score.ofNat 0
  else
    Score.mean (applied.map fun c => (c.levelAmong recommendations).weight) *
      (Score.ofNat applied.length / Score.ofNat (applied.length + skipped))

/-- The numbers of recommendations, below `total`, that changes name. -/
def namedRecommendations (applied : List AppliedChange) (total : Nat) : List Nat :=
  (applied.filterMap AppliedChange.recommendation).filter (· < total)

/-- How many changes name no recommendation. -/
def unnamedChanges (applied : List AppliedChange) (total : Nat) : Nat :=
  (applied.filter fun c => match c.recommendation with
    | some i => decide (total ≤ i)
    | none => true).length

/-- How many of `total` recommendations no change stands for. -/
def skippedRecommendations (applied : List AppliedChange) (total : Nat) : Nat :=
  total - ((firstSeen (namedRecommendations applied total)).length + unnamedChanges applied total)

/-- A file that stays as it is. -/
def skippedOutcome (path : String) (recommendations : List Recommendation) (reason : String) (warnings : List String) :
    FileOutcome α where
  filePath := path
  action := .skip
  appliedChanges := []
  recommendationsTotal := recommendations.length
  recommendationsSkipped := recommendations.length
  confidence := Score.ofNat 0
  warnings := warnings
  skipReason := some reason
  transformedCode := none

/-- What becomes of a file by the answer for it. -/
def fileOutcome (path : String) (recommendations : List Recommendation) (response : TransformResponse) : FileOutcome α :=
  match response.action, response.transformedCode with
  | .skip, _ =>
    skippedOutcome path recommendations (response.warnings.head?.getD "transformer chose to skip this file")
      response.warnings
  | .apply, none =>
    skippedOutcome path recommendations "no transformed code returned"
      (response.warnings ++ ["transformer reported apply without transformed code"])
  | .apply, some code =>
    let applied := response.appliedChanges
    let skipped := skippedRecommendations applied recommendations.length
    { filePath := path
      action := .apply
      appliedChanges := applied
      recommendationsTotal := recommendations.length
      recommendationsSkipped := skipped
      confidence := fileConfidence applied recommendations skipped
      warnings := response.warnings
      skipReason := none
      transformedCode := some code }

/-! ### All files -/

/-- Whether a file was changed. -/
def FileOutcome.isModified (f : FileOutcome α) : Bool := f.action == .apply && !f.appliedChanges.isEmpty

/-- The mean confidence of the files that were changed, in hundredths. -/
def overallConfidence (files : List (FileOutcome α)) : α :=
  let modified := files.filter FileOutcome.isModified
  if modified.isEmpty then Score.ofNat 0 else Score.roundHundredths (Score.mean (modified.map FileOutcome.confidence))

/-- The report on all files. -/
def aggregate (key : Key) (files : List (FileOutcome α)) (warnings : List String) (consistency : ConsistencyReport)
    (now : Timestamp) : TransformationReport α where
  key := key
  files := files
  filesModified := (files.filter FileOutcome.isModified).length
  filesSkipped := (files.filter fun f => f.action == .skip).length
  totalChanges := total (files.map (·.appliedChanges.length))
  overallConfidence := ContractMigration.overallConfidence files
  warnings := warnings
  consistency := consistency
  createdAt := now

/-! ### The verdict -/

/-- How many errors still count as few. -/
def fewErrors : Nat := 2

/-- The score of a transformation with that many errors and warnings. -/
def validationScore (errors warnings : Nat) : α × Bucket :=
  if errors = 0 then
    if warnings = 0 then (Score.decimal 95 2, .high) else (Score.decimal 8 1, .medium)
  else if errors ≤ fewErrors then (Score.decimal 5 1, .low)
  else
    let penalty := Score.decimal 1 1 * Score.ofNat (errors - fewErrors)
    (Score.roundHundredths (Score.larger (Score.decimal 5 1 - penalty) (Score.decimal 1 1)), .low)

/-- A count and its noun. -/
def counted (n : Nat) (noun : String) : String := toString n ++ " " ++ noun ++ (if n = 1 then "" else "s")

/-- What to do next. -/
def nextSteps (r : TransformationReport α) (upgradeable : Nat) : List String :=
  let structural := r.consistency.issues.length - r.consistency.syntaxErrors
  let when := fun (n : Nat) (s : String) => if 0 < n then [s] else []
  when structural ("Fix " ++ counted structural "cross-file consistency issue" ++ " before deploying") ++
    when r.consistency.syntaxErrors
      ("Resolve syntax errors in " ++ counted r.consistency.syntaxErrors "transformed file") ++
    when r.filesSkipped ("Review " ++ counted r.filesSkipped "skipped file" ++ " manually") ++
    when upgradeable ("Verify storage layout compatibility for " ++ counted upgradeable "upgradeable contract") ++
    (if r.filesModified = 0 then ["No files were modified; revisit the migration plan"] else []) ++
    ["Run the project's test suite against the transformed contracts"]

/-- The warnings of a report and of its files. -/
def allWarnings (r : TransformationReport α) : List String :=
  r.warnings ++ r.files.flatMap fun f => f.warnings.map fun w => f.filePath ++ ": " ++ w

/-- The verdict on a transformation: each issue is an error. -/
def validate (r : TransformationReport α) (upgradeable : Nat) : ValidationReport α :=
  let errors := r.consistency.issues
  let warnings := allWarnings r
  let (score, bucket) := validationScore errors.length warnings.length
  { errors
    warnings
    confidenceScore := score
    confidenceBucket := bucket
    passed := errors.isEmpty
    nextSteps := nextSteps r upgradeable }

end

end ContractMigration
