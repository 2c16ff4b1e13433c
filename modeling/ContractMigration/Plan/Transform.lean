import ContractMigration.Plan.Json

/-! What a transformer is asked to do with one file, and what it answers. -/

namespace ContractMigration

/-- A file and the recommendations for it. -/
structure TransformRequest where
  key : Key
  filePath : String
  source : String
  recommendations : List Recommendation
  deriving DecidableEq

/-- Whether a file is changed. -/
inductive TransformAction
  | apply
  | skip
  deriving DecidableEq

namespace TransformAction

def name : TransformAction → String
  | .apply => "apply"
  | .skip => "skip"

def all : List TransformAction := [.apply, .skip]

def reader : Json.Reader TransformAction := Json.variant (all.map fun a => ⟨a, [a.name]⟩) none

end TransformAction

/-- A change made to a file, perhaps with the number of the recommendation that it follows. -/
structure AppliedChange where
  description : String
  recommendation : Option Nat
  level : Option Level
  deriving DecidableEq

/-- The answer for one file. -/
structure TransformResponse where
  action : TransformAction
  appliedChanges : List AppliedChange
  transformedCode : Option String
  warnings : List String
  deriving DecidableEq

/-! ### JSON -/

namespace TransformRequest

def toJson (r : TransformRequest) : Json.Value :=
  .object [("key", r.key.toJson), ("file_path", .string r.filePath), ("source", .string r.source),
    ("recommendations", .list (r.recommendations.map Recommendation.toJson))]

def reader : Json.Reader TransformRequest :=
  Json.record "TransformRequest" (TransformRequest.mk <$> Json.field "key" Key.reader <*>
    Json.field "file_path" Json.string <*> Json.field "source" Json.string <*>
    Json.field "recommendations" (Json.list Recommendation.reader))

end TransformRequest

namespace AppliedChange

def toJson (c : AppliedChange) : Json.Value :=
  Json.objectOf [("description", some (.string c.description)), ("recommendation", c.recommendation.map .nat),
    ("confidence", c.level.map (.string ·.name))]

def reader : Json.Reader AppliedChange :=
  Json.record "AppliedChange" (AppliedChange.mk <$> Json.field "description" Json.string <*>
    Json.fieldOpt "recommendation" Json.count <*> Json.fieldOpt "confidence" Level.reader)

end AppliedChange

namespace TransformResponse

def toJson (r : TransformResponse) : Json.Value :=
  Json.objectOf [("action", some (.string r.action.name)),
    ("applied_changes", some (.list (r.appliedChanges.map AppliedChange.toJson))),
    ("transformed_code", r.transformedCode.map .string), ("warnings", some (Json.strings r.warnings))]

def reader : Json.Reader TransformResponse :=
  Json.record "TransformResponse" (TransformResponse.mk <$> Json.field "action" TransformAction.reader <*>
    Json.fieldOr "applied_changes" (Json.list AppliedChange.reader) [] <*>
    Json.fieldOpt "transformed_code" Json.string <*> Json.fieldOr "warnings" (Json.list Json.string) [])

end TransformResponse

end ContractMigration
