import ContractMigration.Text.Segments

/-! The arguments of the command: options that may stand anywhere, one subcommand, and what that one takes. -/

namespace ContractMigration.CommandLine

/-- What is done with a checkout. -/
inductive Action
  | ingest
  | analyze
  | graph
  | plan
  deriving DecidableEq

namespace Action

def name : Action → String
  | .ingest => "ingest"
  | .analyze => "analyze"
  | .graph => "graph"
  | .plan => "plan"

def all : List Action := [.ingest, .analyze, .graph, .plan]

end Action

/-- A subcommand: an action on a checkout, or the settings. -/
inductive Subcommand
  | action (a : Action)
  | config
  deriving DecidableEq

namespace Subcommand

def name : Subcommand → String
  | .action a => a.name
  | .config => "config"

def all : List Subcommand := Action.all.map .action ++ [.config]

def ofName? (n : String) : Option Subcommand := all.find? fun s => s.name == n

end Subcommand

/-- What the arguments ask for. -/
inductive Command
  | on (a : Action) (path : String) (key : Option String)
  | config
  deriving DecidableEq

/-- A command with the options that go with every command. -/
structure Invocation where
  command : Command
  configPath : Option String
  pretty : Bool
  deriving DecidableEq

/-- Which help is asked for. -/
inductive HelpTopic
  | all
  | subcommand (s : Subcommand)
  | help
  deriving DecidableEq

/-- What the arguments amount to. -/
inductive Parsed
  | run (i : Invocation)
  | help (t : HelpTopic)
  | version
  | invalid
  deriving DecidableEq

/-- The options given at one level: before the subcommand or behind it. -/
structure Given where
  config : Option String
  key : Option String
  verbose : Bool
  quiet : Bool
  pretty : Bool
  path : Option String
  deriving DecidableEq

def Given.none : Given := ⟨.none, .none, false, false, false, .none⟩

/-- What one argument does at a level. A value that stands by itself is refused only after a word behind it has been
looked at, since that word may ask for help. -/
inductive Step
  | go (g : Given) (rest : List String)
  | refuse (rest : List String)
  | word (w : String) (rest : List String)
  | stop (p : Parsed)

/-- Whether an argument is an option. -/
def isOption (a : String) : Bool := Text.startsWith ['-'] a.toList && a != "-"

/-- Takes the value of an option: what stands behind an equals sign, else the next argument. -/
def takeValue (joined : Option String) (rest : List String) (use : String → Option Given) : Step :=
  match joined, rest with
  | some v, rest => match use v with
    | some g => .go g rest
    | none => .stop .invalid
  | none, v :: rest =>
    if isOption v then .stop .invalid
    else match use v with
      | some g => .go g rest
      | none => .refuse rest
  | none, [] => .stop .invalid

/-- Sets a flag that may be given once. -/
def setFlag (already : Bool) (joined : Option String) (g : Given) (rest : List String) : Step :=
  if already || joined.isSome then .stop .invalid else .go g rest

/-- Takes a long option; `sub` is the subcommand it stands behind. -/
def longOption (sub : Option Subcommand) (g : Given) (name : String) (joined : Option String) (rest : List String) :
    Step :=
  let topic := match sub with
    | some s => HelpTopic.subcommand s
    | none => .all
  match name with
  | "config" => takeValue joined rest fun v =>
      if v = "" || g.config.isSome then .none else some { g with config := some v }
  | "key" => match sub with
    | some (.action _) => takeValue joined rest fun v => if g.key.isSome then .none else some { g with key := some v }
    | _ => .stop .invalid
  | "verbose" => setFlag g.verbose joined { g with verbose := true } rest
  | "quiet" => setFlag g.quiet joined { g with quiet := true } rest
  | "pretty" => setFlag g.pretty joined { g with pretty := true } rest
  | "help" => .stop (if joined.isSome then .invalid else .help topic)
  | "version" => .stop (if joined.isSome || sub.isSome then .invalid else .version)
  | _ => .stop .invalid

/-- Takes short options that are written together. -/
def shortOptions (sub : Option Subcommand) (g : Given) (rest : List String) : List Char → Step
  | [] => .go g rest
  | 'v' :: r => if g.verbose then .stop .invalid else shortOptions sub { g with verbose := true } rest r
  | 'h' :: _ => .stop (.help (match sub with
    | some s => .subcommand s
    | none => .all))
  | 'V' :: _ => .stop (if sub.isSome then .invalid else .version)
  | _ => .stop .invalid

/-- Takes one argument. -/
def step (sub : Option Subcommand) (g : Given) (a : String) (rest : List String) : Step :=
  match a.toList with
  | '-' :: '-' :: cs => match Text.cutAt? '=' cs with
    | some (n, v) => longOption sub g (String.ofList n) (some (String.ofList v)) rest
    | none => longOption sub g (String.ofList cs) .none rest
  | '-' :: c :: cs => shortOptions sub g rest (c :: cs)
  | _ => .word a rest

/-- Takes the path, once and not empty. -/
def takePath (sub : Subcommand) (g : Given) (w : String) : Option Given :=
  match sub with
  | .action _ => if w = "" || g.path.isSome then .none else some { g with path := some w }
  | .config => .none

/-- Puts together what was given before the subcommand and behind it; the latter counts more. -/
def finish (before after : Given) (sub : Subcommand) : Parsed :=
  let configPath := after.config.or before.config
  let pretty := before.pretty || after.pretty
  match sub, after.path with
  | .action a, some p => .run ⟨.on a p after.key, configPath, pretty⟩
  | .action _, .none => .invalid
  | .config, _ => .run ⟨.config, configPath, pretty⟩

/-- Takes the words behind two hyphens. -/
def parseWords (before : Given) (sub : Subcommand) : Given → List String → Parsed
  | g, [] => finish before g sub
  | g, w :: r => match takePath sub g w with
    | some g => parseWords before sub g r
    | .none => .invalid

/-- Takes the arguments behind a subcommand; `fuel` is more than their number. -/
def parseSub (before : Given) (sub : Subcommand) : (fuel : Nat) → Given → List String → Parsed
  | 0, _, _ => .invalid
  | _, g, [] => finish before g sub
  | fuel + 1, g, a :: r =>
    if a = "--" then parseWords before sub g r
    else match step (some sub) g a r with
      | .go g r => parseSub before sub fuel g r
      | .refuse _ => .invalid
      | .word w r => match takePath sub g w with
        | some g => parseSub before sub fuel g r
        | .none => .invalid
      | .stop p => p

/-- Takes the subcommands that help is asked for. -/
def parseHelp : List String → Parsed
  | [] => .help .all
  | ["help"] => .help .help
  | [w] => match Subcommand.ofName? w with
    | some s => .help (.subcommand s)
    | .none => .invalid
  | _ => .invalid

/-- The help that was asked for, if it was. -/
def Parsed.onlyHelp : Parsed → Parsed
  | .help t => .help t
  | _ => .invalid

/-- Takes the subcommand `w`, given what stands in front of it. -/
def parseWord (g : Given) (w : String) (rest : List String) : Parsed :=
  if w = "help" then parseHelp rest
  else match Subcommand.ofName? w with
    | some s => parseSub g s (rest.length + 1) .none rest
    | .none => .invalid

/-- Takes the arguments up to the subcommand. -/
def parseTop : (fuel : Nat) → Given → List String → Parsed
  | 0, _, _ => .invalid
  | _, _, [] => .invalid
  | fuel + 1, g, a :: r =>
    if a = "--" then .invalid
    else match step .none g a r with
      | .go g r => parseTop fuel g r
      | .refuse (w :: r) => (parseWord g w r).onlyHelp
      | .refuse [] => .invalid
      | .word w r => parseWord g w r
      | .stop p => p

/-- What arguments amount to. -/
def parse (args : List String) : Parsed := parseTop (args.length + 1) .none args

end ContractMigration.CommandLine
