import ContractMigration.Analysis.Json
import ContractMigration.Plan.Basic

/-! The JSON form of recommendations and plans. -/

namespace ContractMigration

namespace Recommendation

def toJson (r : Recommendation) : Json.Value :=
  Json.objectOf [("file_path", some (.string r.filePath)), ("contract_name", r.contractName.map .string),
    ("category", some (.string r.topic.name)), ("description", some (.string r.description)),
    ("rationale", some (.string r.rationale)), ("confidence_level", some (.string r.level.name))]

def reader : Json.Reader Recommendation :=
  Json.record "Recommendation" (Recommendation.mk <$> Json.field "file_path" Json.string <*>
    Json.fieldOpt "contract_name" Json.string <*> Json.field "category" Topic.reader <*>
    Json.field "description" Json.string <*> Json.fieldOr "rationale" Json.string "" <*>
    Json.field "confidence_level" Level.reader)

end Recommendation

namespace Plan

def toJson (p : Plan) : Json.Value :=
  .object [("key", p.key.toJson), ("summary", p.summary.toJson),
    ("recommendations", .list (p.recommendations.map Recommendation.toJson)),
    ("by_category", p.byTopic.toJson Topic.name), ("risk_level", .string p.risk.name),
    ("generator_output", .string p.output.name), ("warnings", Json.strings p.warnings),
    ("created_at", p.createdAt.toJson)]

def reader : Json.Reader Plan :=
  Json.record "MigrationPlan" (Plan.mk <$> Json.field "key" Key.reader <*>
    Json.field "summary" AnalysisSummary.reader <*>
    Json.field "recommendations" (Json.list Recommendation.reader) <*>
    Json.field "by_category" (Tally.reader Topic.rank Topic.cases (some .other)) <*>
    Json.field "risk_level" Risk.reader <*> Json.field "generator_output" GeneratorOutput.reader <*>
    Json.field "warnings" (Json.list Json.string) <*> Json.field "created_at" Timestamp.reader)

end Plan

end ContractMigration
