import ContractMigration.Analysis.Basic
import ContractMigration.Limits
import ContractMigration.Report.Consistency
import ContractMigration.Text.Blank
import ContractMigration.Toml.Document

/-! The settings of the pipeline. They start from defaults, a file may give any of them, and variables of the environment
override some; in the end every number lies within its limits. -/

namespace ContractMigration

/-- The settings of the pipeline. -/
structure Config where
  cacheTtlSeconds : Nat
  maxRepositories : Nat
  analysisWorkers : Nat
  fetchConcurrency : Nat
  transformConcurrency : Nat
  maxSourceBytes : Nat
  excludeSensitive : Bool
  excludeDirs : List String
  importPrefixes : List String
  parentNames : List String
  deriving DecidableEq

namespace Config

/-- Directories without sources of the repository itself. -/
def defaultExcludeDirs : List String :=
  [".git", "node_modules", "cache", "out", "artifacts", "broadcast", "typechain-types"]

/-- Parents that are well known to be declared elsewhere. -/
def defaultParentNames : List String :=
  ["ERC*", "Ownable*", "AccessControl*", "Initializable", "*Upgradeable", "ReentrancyGuard*", "Pausable*", "Context",
    "UUPSUpgradeable", "Proxy"]

def default : Config where
  cacheTtlSeconds := 1800
  maxRepositories := 64
  analysisWorkers := 4
  fetchConcurrency := 8
  transformConcurrency := 4
  maxSourceBytes := 1024 * 1024
  excludeSensitive := true
  excludeDirs := defaultExcludeDirs
  importPrefixes := Import.externalPrefixes
  parentNames := defaultParentNames

/-- Moves every number between its limits. -/
def clamped (c : Config) : Config :=
  { c with
    cacheTtlSeconds := Limits.ttlSeconds c.cacheTtlSeconds
    maxRepositories := Limits.clampNat c.maxRepositories 1 Limits.maxRepositories
    analysisWorkers := Limits.workers c.analysisWorkers Limits.maxAnalysisWorkers
    fetchConcurrency := Limits.workers c.fetchConcurrency Limits.maxFetches
    transformConcurrency := Limits.workers c.transformConcurrency Limits.maxTransforms
    maxSourceBytes := Limits.clampNat c.maxSourceBytes Limits.minSourceBytes Limits.maxSourceBytes }

/-- What the settings say of an analysis. -/
def analysisOptions (c : Config) : AnalysisOptions := ⟨c.analysisWorkers, c.maxSourceBytes⟩

/-- What the settings say of the check for consistency. -/
def consistencyRules (c : Config) : ConsistencyRules := ⟨c.importPrefixes, c.parentNames⟩

/-! ### JSON and files -/

def toJson (c : Config) : Json.Value :=
  .object [("cache_ttl_secs", .nat c.cacheTtlSeconds), ("max_repositories", .nat c.maxRepositories),
    ("analysis_workers", .nat c.analysisWorkers), ("fetch_concurrency", .nat c.fetchConcurrency),
    ("transform_concurrency", .nat c.transformConcurrency), ("max_source_bytes", .nat c.maxSourceBytes),
    ("exclude_sensitive", .bool c.excludeSensitive), ("exclude_dirs", Json.strings c.excludeDirs),
    ("external_import_prefixes", Json.strings c.importPrefixes), ("external_parent_names", Json.strings c.parentNames)]

/-- Reads settings; those that are missing have their default. -/
def reader : Json.Reader Config :=
  Json.record "PipelineConfig" (Config.mk <$> Json.fieldOr "cache_ttl_secs" Json.size default.cacheTtlSeconds <*>
    Json.fieldOr "max_repositories" Json.count default.maxRepositories <*>
    Json.fieldOr "analysis_workers" Json.count default.analysisWorkers <*>
    Json.fieldOr "fetch_concurrency" Json.count default.fetchConcurrency <*>
    Json.fieldOr "transform_concurrency" Json.count default.transformConcurrency <*>
    Json.fieldOr "max_source_bytes" Json.count default.maxSourceBytes <*>
    Json.fieldOr "exclude_sensitive" Json.boolean default.excludeSensitive <*>
    Json.fieldOr "exclude_dirs" (Json.list Json.string) default.excludeDirs <*>
    Json.fieldOr "external_import_prefixes" (Json.list Json.string) default.importPrefixes <*>
    Json.fieldOr "external_parent_names" (Json.list Json.string) default.parentNames)

/-- Messages about files write doubles without exponents. -/
def floatLayout : Decimal.Layout := ⟨-400, 400⟩

/-- A failure of the configuration file. -/
def fileFault (reason : String) : Failure := .config ("TOML parse error: " ++ reason)

/-- Reads the text of a configuration file. -/
def ofToml (text : String) : Except Failure Config :=
  match Toml.parse? text with
  | none => .error (fileFault "syntax")
  | some v => match reader v.doc with
    | .ok c => .ok c.clamped
    | .error e => .error (fileFault (e.messageWith floatLayout))

/-! ### The environment -/

/-- Reads a flag: anything but four words for no is yes. -/
def flag (raw : String) : Bool :=
  -- No character outside ASCII has a lower case inside these words.
  let v := (Text.trimChars raw.toList).map Char.toLower
  !(["0", "false", "no", "off"].contains (String.ofList v))

/-- Reads a number of sixty-four bits: an optional plus sign and digits, with white space around them. -/
def number? (raw : String) : Option Nat :=
  let s := Text.trimChars raw.toList
  let ds := match s with
    | '+' :: r => r
    | s => s
  if ds.isEmpty || !ds.all Char.isDigit then none
  else
    let n := ds.foldl (fun a c => a * 10 + (c.toNat - 48)) 0
    if n < Nat.pow 2 64 then some n else none

/-- Overrides one number by a variable of the environment, if that is set. -/
def overrideNumber (env : String → Option String) (name : String) (set : Nat → Config → Config) (c : Config) :
    Except Failure Config :=
  match env name with
  | none => .ok c
  | some raw => match number? raw with
    | some n => .ok (set n c)
    | none => .error (.config (name ++ " must be a non-negative integer, got " ++ Text.quoted raw))

/-- The variables of the environment that override settings. -/
def variableNames : List String :=
  ["SOLMIG_CACHE_TTL_SECS", "SOLMIG_MAX_REPOSITORIES", "SOLMIG_ANALYSIS_WORKERS", "SOLMIG_FETCH_CONCURRENCY",
    "SOLMIG_TRANSFORM_CONCURRENCY", "SOLMIG_EXCLUDE_SENSITIVE"]

/-- Overrides settings by variables of the environment. The first that is no number, in a fixed order, is a failure. -/
def withEnvironment (env : String → Option String) (c : Config) : Except Failure Config := do
  let c ← overrideNumber env "SOLMIG_CACHE_TTL_SECS" (fun n c => { c with cacheTtlSeconds := n }) c
  let c ← overrideNumber env "SOLMIG_MAX_REPOSITORIES" (fun n c => { c with maxRepositories := n }) c
  let c ← overrideNumber env "SOLMIG_ANALYSIS_WORKERS" (fun n c => { c with analysisWorkers := n }) c
  let c ← overrideNumber env "SOLMIG_FETCH_CONCURRENCY" (fun n c => { c with fetchConcurrency := n }) c
  let c ← overrideNumber env "SOLMIG_TRANSFORM_CONCURRENCY" (fun n c => { c with transformConcurrency := n }) c
  let c := match env "SOLMIG_EXCLUDE_SENSITIVE" with
    | some raw => { c with excludeSensitive := flag raw }
    | none => c
  .ok c.clamped

end Config

end ContractMigration
