import ContractMigration.Json.Reader

/-! Values that are inferred rather than known: with a confidence between zero and one, and the reason for them. -/

namespace ContractMigration

/-- An inferred value. -/
structure Heuristic (α : Type) where
  value : α
  confidence : Float
  rationale : String

namespace Heuristic

/-- Moves a confidence between zero and one. -/
def clampUnit (c : Float) : Float := if c < 0.0 then 0.0 else if 1.0 < c then 1.0 else c

/-- An inferred value with its confidence moved between zero and one. -/
def of {α : Type} (value : α) (confidence : Float) (rationale : String) : Heuristic α :=
  ⟨value, clampUnit confidence, rationale⟩

def toJson {α : Type} (value : α → Json.Value) (h : Heuristic α) : Json.Value :=
  .object [("value", value h.value), ("confidence", .float h.confidence), ("rationale", .string h.rationale)]

def reader {α : Type} (value : Json.Reader α) : Json.Reader (Heuristic α) :=
  Json.record "Heuristic" (Heuristic.mk <$> Json.field "value" value <*> Json.field "confidence" Json.double <*>
    Json.field "rationale" Json.string)

end Heuristic

end ContractMigration
