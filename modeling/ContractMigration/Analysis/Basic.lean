import ContractMigration.Clock.Timestamp
import ContractMigration.Digest.Sha256
import ContractMigration.Graph.Inference
import ContractMigration.Repository.Key
import ContractMigration.Solidity.Extract
import ContractMigration.Tally

/-! The analysis of a repository: every source is read on its own, the contracts found make up one graph, and a source
that cannot be used is listed with its reason and does not stop the others. -/

namespace ContractMigration

/-- A file to be analysed: its text, or why there is none. -/
structure SourceInput where
  path : String
  content : Except String String

/-- A file that could not be used. -/
structure ParseFailure where
  filePath : String
  message : String
  deriving DecidableEq

/-- The counts of an analysis. -/
structure AnalysisStats where
  filesScanned : Nat
  filesParsed : Nat
  filesSkipped : Nat
  contracts : Nat
  abstractContracts : Nat
  interfaces : Nat
  libraries : Nat
  functions : Nat
  stateVariables : Nat
  importEdges : Nat
  inheritanceEdges : Nat
  unresolvedReferences : Nat
  upgradeableContracts : Nat
  elapsedMs : Nat
  deriving DecidableEq

/-- What is known of a repository. -/
structure Analysis where
  key : Key
  contracts : List ContractUnit
  graph : DependencyGraph
  entryPoints : Heuristic (List String)
  upgradeable : Heuristic (List String)
  stats : AnalysisStats
  parseErrors : List ParseFailure
  sourceFiles : List String
  sourceDigest : String
  analyzedAt : Timestamp

/-- What bounds an analysis. Sources are independent of each other, so the number of workers is not seen in the result. -/
structure AnalysisOptions where
  workers : Nat
  maxSourceBytes : Nat

/-- When an analysis is done and how long it took. -/
structure Clocked where
  now : Timestamp
  elapsedMs : Nat

namespace SourceInput

/-- What one source declares, or why it cannot be used. -/
def extract (maxBytes : Nat) (i : SourceInput) : Except String Solidity.ExtractedFile :=
  match i.content with
  | .error m => .error ("fetch failed: " ++ m)
  | .ok source =>
    if maxBytes < source.utf8ByteSize then
      .error ("source is " ++ toString source.utf8ByteSize ++ " bytes, limit is " ++ toString maxBytes)
    else match Solidity.extract i.path source with
      | .ok f => .ok f
      | .error (.parse _ m) => .error m
      | .error f => .error f.message

/-- The bytes of one source in the digest: path and text, each ended by a zero. -/
def digestBytes (i : SourceInput) : List UInt8 :=
  match i.content with
  | .ok source => Digest.utf8 i.path ++ 0 :: Digest.utf8 source ++ [0]
  | .error _ => []

end SourceInput

/-- The bytes of all sources that were fetched, in order. -/
def digestStream (inputs : List SourceInput) : List UInt8 := inputs.flatMap SourceInput.digestBytes

/-- The digest of the sources that were fetched. -/
def sourceDigest (inputs : List SourceInput) : String := Digest.hex (Digest.sha256 (digestStream inputs))

/-- The files among the outcomes. -/
def parsedFiles (outcomes : List (String × Except String Solidity.ExtractedFile)) : List Solidity.ExtractedFile :=
  outcomes.filterMap fun (_, o) => o.toOption

/-- The failures among the outcomes. -/
def failuresOf (outcomes : List (String × Except String Solidity.ExtractedFile)) : List ParseFailure :=
  outcomes.filterMap fun (p, o) => match o with
    | .ok _ => none
    | .error m => some ⟨p, m⟩

/-- How many contracts are of a kind. -/
def countKind (units : List ContractUnit) (k : ContractKind) : Nat := (units.filter fun u => u.kind == k).length

/-- Analyses sources of a repository that has `filesScanned` files. -/
def analyze (key : Key) (filesScanned : Nat) (inputs : List SourceInput) (options : AnalysisOptions) (clock : Clocked) :
    Analysis :=
  let outcomes := inputs.map fun i => (i.path, i.extract options.maxSourceBytes)
  let files := parsedFiles outcomes
  let contracts := files.flatMap Solidity.ExtractedFile.contracts
  let graph := DependencyGraph.ofUnits contracts
  let upgradeable := inferUpgradeable contracts
  { key
    contracts
    graph
    entryPoints := inferEntryPoints contracts graph
    upgradeable
    stats := {
      filesScanned
      filesParsed := files.length
      filesSkipped := filesScanned - inputs.length
      contracts := countKind contracts .contract
      abstractContracts := countKind contracts .abstract
      interfaces := countKind contracts .interface
      libraries := countKind contracts .library
      functions := total (contracts.map (·.functions.length))
      stateVariables := total (contracts.map (·.stateVariables.length))
      importEdges := graph.edgeCount .import
      inheritanceEdges := graph.edgeCount .inheritance
      unresolvedReferences := graph.unresolved.length
      upgradeableContracts := upgradeable.value.length
      elapsedMs := clock.elapsedMs }
    parseErrors := failuresOf outcomes
    sourceFiles := inputs.map SourceInput.path
    sourceDigest := sourceDigest inputs
    analyzedAt := clock.now }

/-- What the generator of recommendations is told of a contract. -/
structure ContractSummary where
  name : String
  kind : ContractKind
  filePath : String
  inherits : List String
  externalFunctions : Nat
  stateVariables : Nat
  upgradeable : Bool
  deriving DecidableEq

/-- What the generator of recommendations is told of a repository. -/
structure AnalysisSummary where
  key : Key
  contracts : List ContractSummary
  entryPoints : List String
  upgradeable : List String
  unresolvedReferences : List String
  stats : AnalysisStats
  deriving DecidableEq

/-- The summary of a contract. -/
def ContractUnit.summary (u : ContractUnit) : ContractSummary where
  name := u.name
  kind := u.kind
  filePath := u.filePath
  inherits := u.inherits
  externalFunctions := u.functions.length
  stateVariables := u.stateVariables.length
  upgradeable := u.usesUpgradeablePattern

/-- The summary of an analysis. -/
def Analysis.summary (a : Analysis) : AnalysisSummary where
  key := a.key
  contracts := a.contracts.map ContractUnit.summary
  entryPoints := a.entryPoints.value
  upgradeable := a.upgradeable.value
  unresolvedReferences := a.graph.unresolved
  stats := a.stats

end ContractMigration
