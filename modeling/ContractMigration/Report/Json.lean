import ContractMigration.Plan.Json
import ContractMigration.Report.Outcome

/-! The JSON form of outcomes and reports. -/

namespace ContractMigration

namespace FileOutcome

def toJson (f : FileOutcome Float) : Json.Value :=
  Json.objectOf [("file_path", some (.string f.filePath)), ("action", some (.string f.action.name)),
    ("applied_changes", some (.list (f.appliedChanges.map AppliedChange.toJson))),
    ("recommendations_total", some (.nat f.recommendationsTotal)),
    ("recommendations_skipped", some (.nat f.recommendationsSkipped)), ("confidence", some (.float f.confidence)),
    ("warnings", some (Json.strings f.warnings)), ("skip_reason", f.skipReason.map .string),
    ("transformed_code", f.transformedCode.map .string)]

def reader : Json.Reader (FileOutcome Float) :=
  Json.record "FileOutcome" (FileOutcome.mk <$> Json.field "file_path" Json.string <*>
    Json.field "action" TransformAction.reader <*> Json.field "applied_changes" (Json.list AppliedChange.reader) <*>
    Json.field "recommendations_total" Json.count <*> Json.field "recommendations_skipped" Json.count <*>
    Json.field "confidence" Json.double <*> Json.field "warnings" (Json.list Json.string) <*>
    Json.fieldOpt "skip_reason" Json.string <*> Json.fieldOpt "transformed_code" Json.string)

end FileOutcome

namespace TransformationReport

def toJson (r : TransformationReport Float) : Json.Value :=
  .object [("key", r.key.toJson), ("files", .list (r.files.map FileOutcome.toJson)),
    ("files_modified", .nat r.filesModified), ("files_skipped", .nat r.filesSkipped),
    ("total_changes", .nat r.totalChanges), ("overall_confidence", .float r.overallConfidence),
    ("warnings", Json.strings r.warnings), ("consistency", r.consistency.toJson), ("created_at", r.createdAt.toJson)]

def reader : Json.Reader (TransformationReport Float) :=
  Json.record "TransformationReport" (TransformationReport.mk <$> Json.field "key" Key.reader <*>
    Json.field "files" (Json.list FileOutcome.reader) <*> Json.field "files_modified" Json.count <*>
    Json.field "files_skipped" Json.count <*> Json.field "total_changes" Json.count <*>
    Json.field "overall_confidence" Json.double <*> Json.field "warnings" (Json.list Json.string) <*>
    Json.field "consistency" ConsistencyReport.reader <*> Json.field "created_at" Timestamp.reader)

end TransformationReport

namespace ValidationReport

def toJson (r : ValidationReport Float) : Json.Value :=
  .object [("errors", Json.strings r.errors), ("warnings", Json.strings r.warnings),
    ("confidence_score", .float r.confidenceScore), ("confidence_bucket", .string r.confidenceBucket.name),
    ("passed", .bool r.passed), ("next_steps", Json.strings r.nextSteps)]

def reader : Json.Reader (ValidationReport Float) :=
  Json.record "ValidationReport" (ValidationReport.mk <$> Json.field "errors" (Json.list Json.string) <*>
    Json.field "warnings" (Json.list Json.string) <*> Json.field "confidence_score" Json.double <*>
    Json.field "confidence_bucket" Bucket.reader <*> Json.field "passed" Json.boolean <*>
    Json.field "next_steps" (Json.list Json.string))

end ValidationReport

namespace TransformOutcome

def toJson (o : TransformOutcome Float) : Json.Value :=
  .object [("transformation", o.transformation.toJson), ("validation", o.validation.toJson)]

def reader : Json.Reader (TransformOutcome Float) :=
  Json.record "TransformOutcome" (TransformOutcome.mk <$> Json.field "transformation" TransformationReport.reader <*>
    Json.field "validation" ValidationReport.reader)

end TransformOutcome

end ContractMigration
