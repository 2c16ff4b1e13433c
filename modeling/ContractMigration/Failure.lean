import ContractMigration.Json.Reader

/-! What can go wrong for a caller: a cause, the kind it belongs to, and the words for it. -/

namespace ContractMigration

/-- The kinds of failure a caller tells apart. -/
inductive FailureKind
  | input
  | parse
  | collaborator
  | cacheState
  | config
  | internal
  deriving DecidableEq

namespace FailureKind

/-- The name of a kind. -/
def name : FailureKind → String
  | .input => "input"
  | .parse => "parse"
  | .collaborator => "collaborator"
  | .cacheState => "cache_state"
  | .config => "config"
  | .internal => "internal"

def all : List FailureKind := [.input, .parse, .collaborator, .cacheState, .config, .internal]

def reader : Json.Reader FailureKind := Json.variant (all.map fun k => ⟨k, [k.name]⟩) none

end FailureKind

/-- The cause of a failure. -/
inductive Failure
  | invalidRepository (identifier : String)
  | parse (path message : String)
  | collaborator (service message : String)
  | missingInput (key stage reason : String)
  | config (message : String)
  | io (message : String)
  | json (message : String)
  | internal (message : String)
  deriving DecidableEq

namespace Failure

def kind : Failure → FailureKind
  | .invalidRepository _ => .input
  | .parse .. => .parse
  | .collaborator .. => .collaborator
  | .missingInput .. => .cacheState
  | .config _ => .config
  | .io _ | .json _ | .internal _ => .internal

/-- The words for a failure. -/
def message : Failure → String
  | .invalidRepository i => "Invalid repository identifier: " ++ i
  | .parse p m => "Parse error in " ++ p ++ ": " ++ m
  | .collaborator s m => s ++ " failed: " ++ m
  | .missingInput k s r => "No " ++ s ++ " artifact available for " ++ k ++ ": " ++ r
  | .config m => "Configuration error: " ++ m
  | .io m => "IO error: " ++ m
  | .json m => "JSON error: " ++ m
  | .internal m => "Internal error: " ++ m

end Failure

/-- A failure as it is handed to callers. -/
structure FailureReport where
  kind : FailureKind
  message : String
  deriving DecidableEq

namespace FailureReport

def toJson (r : FailureReport) : Json.Value := .object [("kind", .string r.kind.name), ("message", .string r.message)]

def reader : Json.Reader FailureReport :=
  Json.record "ErrorReport" (FailureReport.mk <$> Json.field "kind" FailureKind.reader <*> Json.field "message" Json.string)

end FailureReport

/-- The report of a failure. -/
def Failure.report (f : Failure) : FailureReport := ⟨f.kind, f.message⟩

end ContractMigration
