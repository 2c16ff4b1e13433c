import ContractMigration.Json.Reader
import ContractMigration.Text.Blank

/-! What is known of a contract: its kind, its parents, the functions that others can call, and its state variables. -/

namespace ContractMigration

/-- The kinds of contract. -/
inductive ContractKind
  | contract
  | abstract
  | interface
  | library
  deriving DecidableEq

namespace ContractKind

def name : ContractKind → String
  | .contract => "contract"
  | .abstract => "abstract"
  | .interface => "interface"
  | .library => "library"

def all : List ContractKind := [.contract, .abstract, .interface, .library]

def reader : Json.Reader ContractKind := Json.variant (all.map fun k => ⟨k, [k.name]⟩) none

end ContractKind

/-- Who can use a function or variable. -/
inductive Visibility
  | pub
  | external
  | internal
  | priv
  deriving DecidableEq

namespace Visibility

def name : Visibility → String
  | .pub => "public"
  | .external => "external"
  | .internal => "internal"
  | .priv => "private"

def all : List Visibility := [.pub, .external, .internal, .priv]

def reader : Json.Reader Visibility := Json.variant (all.map fun v => ⟨v, [v.name]⟩) none

/-- Reads a word, with white space around it. -/
def ofWord? (w : String) : Option Visibility := all.find? fun v => v.name == Text.trim w

/-- Whether others can call what has this visibility. -/
def isExposed : Visibility → Bool
  | .pub | .external => true
  | .internal | .priv => false

end Visibility

/-- What a function may do to the state. -/
inductive Mutability
  | pure
  | view
  | payable
  | nonpayable
  deriving DecidableEq

namespace Mutability

def name : Mutability → String
  | .pure => "pure"
  | .view => "view"
  | .payable => "payable"
  | .nonpayable => "nonpayable"

def all : List Mutability := [.pure, .view, .payable, .nonpayable]

def reader : Json.Reader Mutability := Json.variant (all.map fun m => ⟨m, [m.name]⟩) none

/-- Reads a word, with white space around it. -/
def ofWord? (w : String) : Option Mutability := all.find? fun m => m.name == Text.trim w

end Mutability

/-- A function that others can call. -/
structure FunctionSignature where
  name : String
  visibility : Visibility
  mutability : Option Mutability
  parameterCount : Nat
  returnCount : Nat
  deriving DecidableEq

/-- A state variable; its type is written as in the source. -/
structure StateVariable where
  name : String
  typeName : String
  visibility : Visibility
  constant : Bool
  immutable : Bool
  deriving DecidableEq

/-- A contract, abstract contract, interface or library. -/
structure ContractUnit where
  name : String
  kind : ContractKind
  filePath : String
  imports : List String
  inherits : List String
  functions : List FunctionSignature
  stateVariables : List StateVariable
  usesUpgradeablePattern : Bool
  upgradeMarkers : List String
  deriving DecidableEq

/-! ### JSON -/

namespace FunctionSignature

def toJson (f : FunctionSignature) : Json.Value :=
  Json.objectOf [("name", some (.string f.name)), ("visibility", some (.string f.visibility.name)),
    ("mutability", f.mutability.map (.string ·.name)), ("parameter_count", some (.nat f.parameterCount)),
    ("return_count", some (.nat f.returnCount))]

def reader : Json.Reader FunctionSignature :=
  Json.record "FunctionSignature" (FunctionSignature.mk <$> Json.field "name" Json.string <*>
    Json.field "visibility" Visibility.reader <*> Json.fieldOpt "mutability" Mutability.reader <*>
    Json.field "parameter_count" Json.count <*> Json.field "return_count" Json.count)

end FunctionSignature

namespace StateVariable

def toJson (v : StateVariable) : Json.Value :=
  .object [("name", .string v.name), ("type_name", .string v.typeName), ("visibility", .string v.visibility.name),
    ("constant", .bool v.constant), ("immutable", .bool v.immutable)]

def reader : Json.Reader StateVariable :=
  Json.record "StateVariable" (StateVariable.mk <$> Json.field "name" Json.string <*>
    Json.field "type_name" Json.string <*> Json.field "visibility" Visibility.reader <*>
    Json.field "constant" Json.boolean <*> Json.field "immutable" Json.boolean)

end StateVariable

namespace ContractUnit

def toJson (u : ContractUnit) : Json.Value :=
  .object [("name", .string u.name), ("kind", .string u.kind.name), ("file_path", .string u.filePath),
    ("imports", Json.strings u.imports), ("inherits", Json.strings u.inherits),
    ("functions", .list (u.functions.map FunctionSignature.toJson)),
    ("state_variables", .list (u.stateVariables.map StateVariable.toJson)),
    ("uses_upgradeable_pattern", .bool u.usesUpgradeablePattern), ("upgrade_markers", Json.strings u.upgradeMarkers)]

def reader : Json.Reader ContractUnit :=
  Json.record "ContractUnit" (ContractUnit.mk <$> Json.field "name" Json.string <*>
    Json.field "kind" ContractKind.reader <*> Json.field "file_path" Json.string <*>
    Json.field "imports" (Json.list Json.string) <*> Json.field "inherits" (Json.list Json.string) <*>
    Json.field "functions" (Json.list FunctionSignature.reader) <*>
    Json.field "state_variables" (Json.list StateVariable.reader) <*>
    Json.field "uses_upgradeable_pattern" Json.boolean <*>
    Json.fieldOr "upgrade_markers" (Json.list Json.string) [])

end ContractUnit

end ContractMigration
