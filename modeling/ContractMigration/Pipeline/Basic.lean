import ContractMigration.Config
import ContractMigration.Pipeline.Product
import ContractMigration.Plan.Make
import ContractMigration.Session.Basic

/-! The four stages as computations, each on top of the one before it: the tree of a repository, its analysis, a plan,
and the files transformed by the plan. Every stage goes through the cache. Collaborators may be missing: without a host
only what is cached can be worked on, without a generator plans are empty, and without a transformer files stay as they
are. -/

namespace ContractMigration

/-- The settings, and which collaborators there are. -/
structure Pipeline where
  config : Config
  hasRepository : Bool
  hasGenerator : Bool
  hasTransformer : Bool

namespace Pipeline

/-- A cache as the settings want it. -/
def newCache (p : Pipeline) : Cache Product := .empty (p.config.cacheTtlSeconds * 1000) p.config.maxRepositories

/-! ### The stages -/

/-- Takes in a repository. -/
def ingestTask (k : Key) : Task (Product × List (Artifact Product)) := do
  let metadata ← Task.metadata k
  let tree ← Task.tree k
  let sources ← Task.prefetch k tree
  let now ← Task.clock
  pure (.tree ⟨k, metadata, tree, sources, now⟩, [])

/-- The text of one file: as taken in with the tree, else from the host. -/
def fetchInput (p : Pipeline) (k : Key) (i : Ingest) (path : String) : Routine Outside Product SourceInput :=
  match i.source? path with
  | some text => .done ⟨path, .ok text⟩
  | none =>
    if p.hasRepository then
      (Outside.ask (.content k path)).bind fun r => .done ⟨path, r.mapError Failure.message⟩
    else .done ⟨path, .error "no repository client configured"⟩

/-- The texts of all files with contracts. -/
def fetchInputs (p : Pipeline) (k : Key) (i : Ingest) : Routine Outside Product (List SourceInput) :=
  Routine.buffered p.config.fetchConcurrency (p.fetchInput k i) (i.tree.contractFiles.map FileNode.path)

/-- Analyses a repository. -/
def analysisTask (p : Pipeline) (k : Key) : Task (Product × List (Artifact Product)) := do
  let (source, ingest) ← Task.ingest k
  let inputs ← ExceptT.lift (p.fetchInputs k ingest)
  let begun ← Task.clock
  Task.yield
  let now ← Task.clock
  let a := analyze k ingest.tree.totalFiles inputs p.config.analysisOptions ⟨now, Timestamp.millisBetween begun now⟩
  pure (.analysis a, [source])

/-- Plans a migration. -/
def planTask (p : Pipeline) (k : Key) : Task (Product × List (Artifact Product)) := do
  let (source, a) ← Task.analysis k
  let reply ← if p.hasGenerator then
      ExceptT.lift ((Outside.ask (.generate a.summary)).bind fun r => .done (some r))
    else pure none
  let now ← Task.clock
  pure (.plan (makePlan k a reply now), [source])

/-- The text of a file that is to be transformed, or why there is none. -/
def fetchSource (p : Pipeline) (k : Key) (i : Option Ingest) (path : String) :
    Routine Outside Product (Except String String) :=
  match i.bind fun i => i.source? path with
  | some text => .done (.ok text)
  | none =>
    if p.hasRepository then
      (Outside.ask (.content k path)).bind fun r => .done (r.mapError fun e => "source fetch failed: " ++ e.message)
    else .done (.error "source unavailable")

/-- What becomes of a file by the reply of the transformer. -/
def outcomeOfReply (path : String) (recommendations : List Recommendation) (reply : Except Failure String) :
    FileOutcome Float :=
  match reply with
  | .error e => skippedOutcome path recommendations ("transformer failed: " ++ e.message) []
  | .ok raw => match readResponse raw with
    | .valid response => fileOutcome path recommendations response
    | .malformed _ reason => skippedOutcome path recommendations ("malformed transformer output: " ++ reason) []

/-- Transforms one file. -/
def transformFile (p : Pipeline) (k : Key) (i : Option Ingest) (path : String) (recommendations : List Recommendation) :
    Routine Outside Product (FileOutcome Float) :=
  if p.hasTransformer then do
    match ← p.fetchSource k i path with
    | .error reason => pure (skippedOutcome path recommendations reason [])
    | .ok source =>
      let reply ← Outside.ask (.transform ⟨k, path, source, recommendations⟩)
      pure (outcomeOfReply path recommendations reply)
  else .done (skippedOutcome path recommendations "no code transformer configured" [])

/-- The report on transformed files. -/
def transformReport (p : Pipeline) (k : Key) (a : Analysis) (outcomes : List (FileOutcome Float))
    (warnings : List String) (now : Timestamp) : TransformOutcome Float :=
  let transformed := outcomes.filterMap fun o => o.transformedCode.map fun code => (o.filePath, code)
  let consistency := validateConsistency a transformed p.config.consistencyRules
  let report := aggregate k outcomes warnings consistency now
  ⟨report, validate report a.upgradeable.value.length⟩

/-- Transforms the files that the plan names. The analysis comes first, so that a plan for an older one is made anew. -/
def transformTask (p : Pipeline) (k : Key) : Task (Product × List (Artifact Product)) := do
  let (analysed, a) ← Task.analysis k
  let (planned, plan) ← Task.plan k
  let ingest ← Task.cachedIngest k
  let grouping := Grouping.of a.sourceFiles plan.warnings plan.recommendations
  let outcomes ← ExceptT.lift (Routine.buffered p.config.transformConcurrency
    (fun (path, rs) => p.transformFile k ingest path rs) grouping.groups)
  Task.yield
  let now ← Task.clock
  pure (.transform (p.transformReport k a outcomes grouping.allWarnings now), [analysed, planned])

/-- The computation of a stage. -/
def task (p : Pipeline) (k : Key) : Stage → Routine Outside Product (Made Product)
  | .tree => (ingestTask k).run
  | .analysis => (p.analysisTask k).run
  | .plan => (p.planTask k).run
  | .transform => (p.transformTask k).run

/-! ### Requests -/

/-- The failure of a request for which nothing that it builds on is at hand. -/
def missing (k : Key) (reason : String) : Failure := .missingInput k.text Stage.tree.name reason

/-- Whether one of the stages can be served, asked in order up to the first. -/
def anyCached (c : Cache Product) (now : Nat) (k : Key) : List Stage → Bool × Cache Product
  | [] => (false, c)
  | s :: r =>
    let (found, c) := c.contains now k s
    if found then (true, c) else anyCached c now k r

/-- Asks for a stage of a repository. Without a host a tree is only looked for, and the other stages are only computed
when they or a stage before them can be served. -/
def call (p : Pipeline) (s : Session Outside Product) (k : Key) (st : Stage) :
    Ticket Product × Session Outside Product :=
  if p.hasRepository then s.enter k st (p.task k st)
  else if st = .tree then
    let (a, s) := s.peek k .tree
    match a with
    | some a => (.settled (.ok a), s)
    | none => (.settled (.error (missing k "no repository client configured")), s)
  else
    let (found, c) := anyCached s.cache s.now k st.upToHere
    let s := { s with cache := c }
    if found then s.enter k st (p.task k st)
    else (.settled (.error (missing k "artifact not cached and no repository client configured")), s)

end Pipeline

end ContractMigration
