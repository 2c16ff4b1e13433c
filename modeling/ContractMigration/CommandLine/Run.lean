import ContractMigration.Checkout.Host
import ContractMigration.CommandLine.Help
import ContractMigration.Pipeline.Serve

/-! The command as a function: from arguments, variables, files and the time to what is printed. -/

namespace ContractMigration.CommandLine

/-- What a run of the command leaves behind. -/
structure Outcome where
  exit : Nat
  stdout : String
  stderr : String

/-- A failure of the command, perhaps with what was tried. -/
structure Trouble where
  attempt : Option String
  cause : String

/-- The words for a failure. -/
def Trouble.text (t : Trouble) : String :=
  match t.attempt with
  | some a => "Error: " ++ a ++ "\n\nCaused by:\n    " ++ t.cause ++ "\n"
  | none => "Error: " ++ t.cause ++ "\n"

/-- A failure as it is. -/
def Trouble.of (f : Failure) : Trouble := ⟨none, f.message⟩

/-- The settings: defaults, then the file if there is one, then the variables. -/
def loadConfig (i : Invocation) (env : String → Option String) (f : Files) : Except Failure Config := do
  let c ← match i.configPath with
    | none => pure .default
    | some path => match f.text path with
      | .ok t => Config.ofToml t
      | .error e => .error (.config (path ++ ": " ++ e.message))
  c.withEnvironment env

/-- A graph as it is printed on its own. -/
def graphJson (g : DependencyGraph) : Json.Value :=
  .object [("nodes", Json.strings g.nodes), ("import_edges", .nat (g.edgeCount .import)),
    ("inheritance_edges", .nat (g.edgeCount .inheritance)), ("edges", .list (g.edges.map Edge.toJson)),
    ("unresolved", Json.strings g.unresolved)]

/-- The stage whose artifact an action prints. -/
def Action.stage : Action → Stage
  | .ingest => .tree
  | .analyze | .graph => .analysis
  | .plan => .plan

/-- What an action prints of an artifact. -/
def Action.print : Action → Product → List Json.Value
  | .ingest, .tree i => [i.metadata.toJson, i.tree.toJson]
  | .graph, .analysis a => [graphJson a.graph]
  | _, p => [p.toJson]

/-- How many moves a request on a checkout may take. -/
def fuelFor (f : Files) : Nat := 200 + 20 * f.files.length

/-- Performs an action on the checkout at `path`. -/
def perform (a : Action) (path : String) (key : Option String) (c : Config) (f : Files) (now : Timestamp) :
    Except Trouble (List Json.Value) := do
  let place ← (f.locate path).mapError fun e => ⟨some ("cannot open repository at " ++ path), e.message⟩
  let checkout : Checkout := ⟨f.pathOf place, c.scanOptions⟩
  let k ← (match key with
    | some raw => Key.parse raw
    | none => checkout.defaultKey f).mapError Trouble.of
  let p : Pipeline := ⟨c, true, false, false⟩
  let made ← (p.serve (checkout.answer f now) (fuelFor f) k a.stage).mapError Trouble.of
  .ok (a.print made.value)

/-- The values that an invocation prints. -/
def values (i : Invocation) (env : String → Option String) (f : Files) (now : Timestamp) :
    Except Trouble (List Json.Value) := do
  let c ← (loadConfig i env f).mapError fun e => ⟨some "failed to load configuration", e.message⟩
  match i.command with
  | .config => .ok [c.toJson]
  | .on a path key => perform a path key c f now

/-- Does what the arguments amount to. -/
def runParsed (p : Parsed) (env : String → Option String) (f : Files) (now : Timestamp) : Outcome :=
  match p with
  | .help t => ⟨0, helpText t, ""⟩
  | .version => ⟨0, versionText, ""⟩
  | .invalid => ⟨2, "", usageText⟩
  | .run i => match values i env f now with
    | .ok vs => ⟨0, unlines (vs.map fun v => if i.pretty then v.renderPretty else v.render), ""⟩
    | .error t => ⟨1, "", t.text⟩

/-- Runs the command. -/
def run (args : List String) (env : String → Option String) (f : Files) (now : Timestamp) : Outcome :=
  runParsed (parse args) env f now

end ContractMigration.CommandLine
