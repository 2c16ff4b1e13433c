import ContractMigration.Json.Reader
import ContractMigration.Repository.Path

/-! What a file of a repository is for, read off its path. -/

namespace ContractMigration

/-- What a file is for. -/
inductive Category
  | contract
  | test
  | script
  | vendor
  | config
  | docs
  | other
  deriving DecidableEq

namespace Category

def name : Category → String
  | .contract => "contract"
  | .test => "test"
  | .script => "script"
  | .vendor => "vendor"
  | .config => "config"
  | .docs => "docs"
  | .other => "other"

/-- The categories in the order in which counts list them. -/
def all : List Category := [.contract, .test, .script, .vendor, .config, .docs, .other]

/-- The place of a category in that order. -/
def rank : Category → Nat
  | .contract => 0
  | .test => 1
  | .script => 2
  | .vendor => 3
  | .config => 4
  | .docs => 5
  | .other => 6

def cases : List (Json.Case Category) := all.map fun c => ⟨c, [c.name]⟩

def reader : Json.Reader Category := Json.variant cases none

def vendorDirs : List String := ["node_modules", "lib"]
def testDirs : List String := ["test", "tests"]
def scriptDirs : List String := ["script", "scripts"]
def configFiles : List String :=
  ["foundry.toml", "remappings.txt", "package.json", "truffle-config.js", "brownie-config.yaml"]

/-- The category of a file with that name in these directories. -/
def ofName (dirs : List (List Char)) (file : List Char) : Category :=
  let inDir := fun (names : List String) => dirs.any fun d => names.contains (String.ofList d)
  let ends := fun (s : String) => Text.endsWith s.toList file
  if inDir vendorDirs then .vendor
  else if ends ".sol" then
    if ends ".t.sol" || inDir testDirs then .test
    else if ends ".s.sol" || inDir scriptDirs then .script
    else .contract
  else if configFiles.contains (String.ofList file) || Text.startsWith "hardhat.config.".toList file then .config
  -- No character outside ASCII has a lower case inside `.md`.
  else if Text.endsWith ".md".toList (file.map Char.toLower) then .docs
  else .other

/-- The category of a path. -/
def ofPathChars (path : List Char) : Category :=
  let segments := (Text.segments '/' (Path.slashed path)).filter fun s => !s.isEmpty
  match segments.getLast? with
  | none => .other
  | some file => ofName segments.dropLast file

/-- The category of a path. -/
def ofPath (path : String) : Category := ofPathChars path.toList

end Category

end ContractMigration
