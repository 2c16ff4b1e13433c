import ContractMigration.Failure
import ContractMigration.Solidity.Grammar
import ContractMigration.Solidity.Unit

/-! From a source to its imports and its contracts. A source that is not well formed as a whole yields nothing. Imports
and parents are read off the text of their phrase; members are collected by one walk over the declaration. -/

namespace ContractMigration.Solidity

/-- The text between the first quote that has a partner and that partner. -/
def importPathChars? : List Char → Option (List Char)
  | [] => none
  | c :: r =>
    if c = '"' ∨ c = '\'' then
      match Text.cutAt? c r with
      | some (body, _) => some body
      | none => importPathChars? r
    else importPathChars? r

/-- The path that an import names. -/
def importPath? (directive : String) : Option String := (importPathChars? directive.toList).map String.ofList

/-- Names that appear in contracts which can be replaced behind a proxy. -/
def upgradeTokens : List String :=
  ["Initializable", "UUPSUpgradeable", "TransparentUpgradeableProxy", "ERC1967Proxy", "ERC1967Upgrade", "BeaconProxy",
    "UpgradeableBeacon", "ProxyAdmin", "_authorizeUpgrade", "upgradeTo", "upgradeToAndCall", "initializer",
    "_disableInitializers"]

/-- The names among these that appear in a declaration. -/
def upgradeMarkers (declaration : String) : List String :=
  upgradeTokens.filter fun t => Text.contains t.toList declaration.toList

/-- The name of a parent: what precedes its arguments, without white space. -/
def parentName (specifier : String) : String :=
  String.ofList ((specifier.toList.takeWhile (· != '(')).filter (!Text.isBlank ·))

/-- Adds a text at the end unless it is empty or already there. -/
def addNew (texts : List String) (t : String) : List String :=
  if t = "" ∨ t ∈ texts then texts else texts ++ [t]

/-- The texts without empty ones and repetitions, in the order of first appearance. -/
def distinct (texts : List String) : List String := texts.foldl addNew []

/-! ### Members -/

/-- The text of the first child of that kind. -/
def Tree.childText? (t : Tree) (p : Phrase) : Option String := (t.child? p).map Tree.text

/-- The first visibility among the children. -/
def Tree.visibility? (t : Tree) : Option Visibility := (t.childText? .visibility).bind Visibility.ofWord?

/-- The signature of a function that others can call. -/
def signature? (t : Tree) : Option FunctionSignature := do
  let name ← t.childText? .name
  let visibility := t.visibility?.getD .pub
  if name = "" || !visibility.isExposed then none
  some {
    name
    visibility
    mutability := (t.childText? .mutability).bind Mutability.ofWord?
    parameterCount := t.count .parameter
    returnCount := ((t.child? .returns).map (·.count .parameter)).getD 0 }

/-- A state variable. -/
def stateVariable? (t : Tree) : Option StateVariable := do
  let name ← t.childText? .name
  if name = "" then none
  some {
    name
    typeName := (t.childText? .typeName).getD ""
    visibility := t.visibility?.getD .internal
    constant := t.has .constantMark
    immutable := t.has .immutableMark }

/-- Phrases in which no function or state variable of the contract stands. -/
def Phrase.isClosed : Phrase → Bool
  | .constructor | .modifier | .fallback | .parent | .struct | .enum | .event | .error => true
  | _ => false

/-- The functions and state variables of a contract. -/
structure Members where
  functions : List FunctionSignature
  stateVariables : List StateVariable

namespace Members

def empty : Members := ⟨[], []⟩

def addFunction (m : Members) (f : Option FunctionSignature) : Members := { m with functions := f.toList ++ m.functions }

def addVariable (m : Members) (v : Option StateVariable) : Members := { m with stateVariables := v.toList ++ m.stateVariables }

end Members

mutual

/-- How many trees a tree holds, itself included. -/
def Tree.weight : Tree → Nat
  | .leaf _ => 1
  | .node _ ts => weights ts + 1

/-- How many trees several trees hold. -/
def weights : List Tree → Nat
  | [] => 0
  | t :: r => t.weight + weights r

end

theorem weights_append (a b : List Tree) : weights (a ++ b) = weights a + weights b := by
  induction a with
  | nil => simp [weights]
  | cons t r ih => simp [weights, ih]; omega

/-- Walks over the trees that are still to be visited, the first one next. -/
def collect : List Tree → Members
  | [] => .empty
  | .leaf _ :: rest => collect rest
  | .node p ts :: rest =>
    match p with
    | .function => (collect rest).addFunction (signature? (.node p ts))
    | .stateVariable => (collect rest).addVariable (stateVariable? (.node p ts))
    | p => if p.isClosed then collect rest else collect (ts ++ rest)
termination_by trees => weights trees
decreasing_by all_goals simp only [weights, Tree.weight, weights_append]; omega

/-! ### Declarations -/

/-- The kind of a declaration that is a contract. -/
def contractKind? (t : Tree) : Option ContractKind :=
  match t.phrase? with
  | some .interface => some .interface
  | some .library => some .library
  | some .contract => some (if t.has .abstractMark then .abstract else .contract)
  | _ => none

/-- The parents that a declaration names. -/
def parents (t : Tree) : List String :=
  distinct ((t.children.filter fun c => c.phrase? == some .parent).map fun c => parentName c.text)

/-- The imports of a file and its contracts. -/
structure ExtractedFile where
  filePath : String
  imports : List String
  contracts : List ContractUnit
  deriving DecidableEq

/-- The unit of a declaration in a file with these imports. -/
def unitOf? (path : String) (imports : List String) (t : Tree) : Option ContractUnit := do
  let kind ← contractKind? t
  let name ← t.childText? .name
  if name = "" then none
  let members := collect [t]
  let markers := upgradeMarkers t.text
  some {
    name
    kind
    filePath := path
    imports
    inherits := parents t
    functions := members.functions
    stateVariables := members.stateVariables
    usesUpgradeablePattern := !markers.isEmpty
    upgradeMarkers := markers }

/-- The imports among the phrases of a file. -/
def importsOf (trees : List Tree) : List String :=
  distinct ((trees.filter fun t => t.phrase? == some .importDirective).filterMap fun t => importPath? t.text)

/-- What the phrases of a file declare. -/
def extractTrees (path : String) (trees : List Tree) : ExtractedFile where
  filePath := path
  imports := importsOf trees
  contracts := trees.filterMap (unitOf? path (importsOf trees))

/-- The words for a source that is not well formed. -/
def malformed : String := "syntax error"

/-- What a source declares. -/
def extract (path source : String) : Except Failure ExtractedFile :=
  match parse? source with
  | some trees => .ok (extractTrees path trees)
  | none => .error (.parse path malformed)

namespace ExtractedFile

def toJson (f : ExtractedFile) : Json.Value :=
  .object [("file_path", .string f.filePath), ("imports", Json.strings f.imports),
    ("contracts", .list (f.contracts.map ContractUnit.toJson))]

end ExtractedFile

end ContractMigration.Solidity
