import ContractMigration.Analysis.Basic

/-! The JSON form of an analysis and of its summary. -/

namespace ContractMigration

namespace ParseFailure

def toJson (f : ParseFailure) : Json.Value :=
  .object [("file_path", .string f.filePath), ("message", .string f.message)]

def reader : Json.Reader ParseFailure :=
  Json.record "ParseFailure" (ParseFailure.mk <$> Json.field "file_path" Json.string <*> Json.field "message" Json.string)

end ParseFailure

namespace AnalysisStats

def toJson (s : AnalysisStats) : Json.Value :=
  .object [("files_scanned", .nat s.filesScanned), ("files_parsed", .nat s.filesParsed),
    ("files_skipped", .nat s.filesSkipped), ("contracts", .nat s.contracts),
    ("abstract_contracts", .nat s.abstractContracts), ("interfaces", .nat s.interfaces),
    ("libraries", .nat s.libraries), ("functions", .nat s.functions), ("state_variables", .nat s.stateVariables),
    ("import_edges", .nat s.importEdges), ("inheritance_edges", .nat s.inheritanceEdges),
    ("unresolved_references", .nat s.unresolvedReferences), ("upgradeable_contracts", .nat s.upgradeableContracts),
    ("elapsed_ms", .nat s.elapsedMs)]

def reader : Json.Reader AnalysisStats :=
  Json.record "AnalysisStats" (AnalysisStats.mk <$> Json.field "files_scanned" Json.count <*>
    Json.field "files_parsed" Json.count <*> Json.field "files_skipped" Json.count <*>
    Json.field "contracts" Json.count <*> Json.field "abstract_contracts" Json.count <*>
    Json.field "interfaces" Json.count <*> Json.field "libraries" Json.count <*> Json.field "functions" Json.count <*>
    Json.field "state_variables" Json.count <*> Json.field "import_edges" Json.count <*>
    Json.field "inheritance_edges" Json.count <*> Json.field "unresolved_references" Json.count <*>
    Json.field "upgradeable_contracts" Json.count <*> Json.field "elapsed_ms" Json.size)

end AnalysisStats

namespace Analysis

def toJson (a : Analysis) : Json.Value :=
  .object [("key", a.key.toJson), ("contracts", .list (a.contracts.map ContractUnit.toJson)),
    ("dependency_graph", a.graph.toJson), ("entry_points", a.entryPoints.toJson Json.strings),
    ("upgradeable", a.upgradeable.toJson Json.strings), ("stats", a.stats.toJson),
    ("parse_errors", .list (a.parseErrors.map ParseFailure.toJson)), ("source_files", Json.strings a.sourceFiles),
    ("source_digest", .string a.sourceDigest), ("analyzed_at", a.analyzedAt.toJson)]

def reader : Json.Reader Analysis :=
  Json.record "AnalysisResult" (Analysis.mk <$> Json.field "key" Key.reader <*>
    Json.field "contracts" (Json.list ContractUnit.reader) <*>
    Json.field "dependency_graph" DependencyGraph.reader <*>
    Json.field "entry_points" (Heuristic.reader (Json.list Json.string)) <*>
    Json.field "upgradeable" (Heuristic.reader (Json.list Json.string)) <*> Json.field "stats" AnalysisStats.reader <*>
    Json.field "parse_errors" (Json.list ParseFailure.reader) <*>
    Json.field "source_files" (Json.list Json.string) <*> Json.field "source_digest" Json.string <*>
    Json.field "analyzed_at" Timestamp.reader)

end Analysis

namespace ContractSummary

def toJson (c : ContractSummary) : Json.Value :=
  .object [("name", .string c.name), ("kind", .string c.kind.name), ("file_path", .string c.filePath),
    ("inherits", Json.strings c.inherits), ("external_functions", .nat c.externalFunctions),
    ("state_variables", .nat c.stateVariables), ("upgradeable", .bool c.upgradeable)]

def reader : Json.Reader ContractSummary :=
  Json.record "ContractSummary" (ContractSummary.mk <$> Json.field "name" Json.string <*>
    Json.field "kind" ContractKind.reader <*> Json.field "file_path" Json.string <*>
    Json.field "inherits" (Json.list Json.string) <*> Json.field "external_functions" Json.count <*>
    Json.field "state_variables" Json.count <*> Json.field "upgradeable" Json.boolean)

end ContractSummary

namespace AnalysisSummary

def toJson (s : AnalysisSummary) : Json.Value :=
  .object [("key", s.key.toJson), ("contracts", .list (s.contracts.map ContractSummary.toJson)),
    ("entry_points", Json.strings s.entryPoints), ("upgradeable", Json.strings s.upgradeable),
    ("unresolved_references", Json.strings s.unresolvedReferences), ("stats", s.stats.toJson)]

def reader : Json.Reader AnalysisSummary :=
  Json.record "AnalysisSummary" (AnalysisSummary.mk <$> Json.field "key" Key.reader <*>
    Json.field "contracts" (Json.list ContractSummary.reader) <*> Json.field "entry_points" (Json.list Json.string) <*>
    Json.field "upgradeable" (Json.list Json.string) <*>
    Json.field "unresolved_references" (Json.list Json.string) <*> Json.field "stats" AnalysisStats.reader)

end AnalysisSummary

end ContractMigration
