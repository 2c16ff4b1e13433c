import ContractMigration.Limits
import ContractMigration.Plan.Transform
import ContractMigration.Text.Fence

/-! Replies of collaborators. They are text that nobody vouches for: either they can be read, or the reason why not is
kept beside the first part of the text. -/

namespace ContractMigration

/-- A reply that was read, or why it could not be. -/
inductive Reply (α : Type)
  | valid (value : α)
  | malformed (raw reason : String)

namespace Reply

/-- A reply that could not be read. -/
def broken {α : Type} (raw reason : String) : Reply α := .malformed (Text.truncate raw Limits.maxRawChars) reason

/-- The content of a reply: what is fenced in it, or all of it. -/
def content (raw : String) : String := String.ofList (Text.unfenced raw.toList)

/-- Reads the content of a reply. -/
def read {α : Type} (r : Json.Reader α) (raw : String) : Reply α :=
  let body := content raw
  if body.isEmpty then broken raw "empty response"
  else match Json.read r body with
    | .ok a => .valid a
    | .error e => broken raw e.message

end Reply

/-- An object with the list of recommendations as a member. -/
def wrappedRecommendations : Json.Reader (List Recommendation)
  | .object members close =>
    Json.record "RecommendationPayload" (id <$> Json.field "recommendations" (Json.list Recommendation.reader))
      (.object members close)
  | d => d.refuse "struct variant RecommendationPayload::Wrapped"

/-- Reads recommendations as a list or as an object that holds the list. The text is read as any value first, so a
fault of the text keeps its own words. -/
def recommendationsReader : Json.Reader (List Recommendation) := fun d => do
  let v ← d.value
  match Json.list Recommendation.reader v.doc with
  | .ok rs => .ok rs
  | .error _ => match wrappedRecommendations v.doc with
    | .ok rs => .ok rs
    | .error _ => .error (.noMatch "RecommendationPayload")

/-- Reads the reply of a generator. -/
def readRecommendations (raw : String) : Reply (List Recommendation) := Reply.read recommendationsReader raw

/-- Reads the reply of a transformer. -/
def readResponse (raw : String) : Reply TransformResponse := Reply.read TransformResponse.reader raw

end ContractMigration
