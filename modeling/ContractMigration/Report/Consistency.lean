import ContractMigration.Analysis.Basic
import ContractMigration.Repository.Import

/-! Whether transformed files still fit together: each import has to lead to a known file or out of the repository, and
each parent has to be declared somewhere or follow the naming of contracts outside of it. -/

namespace ContractMigration

/-- What counts as outside of the repository. -/
structure ConsistencyRules where
  importPrefixes : List String
  parentNames : List String

/-- The outcome of a check. -/
structure ConsistencyReport where
  checked : Bool
  importsValid : Bool
  inheritanceValid : Bool
  issues : List String
  filesChecked : Nat
  syntaxErrors : Nat
  deriving DecidableEq

/-- Whether nothing is wrong. -/
def ConsistencyReport.isConsistent (r : ConsistencyReport) : Bool :=
  r.importsValid && r.inheritanceValid && r.syntaxErrors == 0

/-- Something that does not fit. -/
inductive Issue
  | import (file target resolved : String)
  | parent (file contract parent : String)
  | malformed (file : String) (failure : Failure)
  deriving DecidableEq

namespace Issue

/-- The words for an issue. -/
def message : Issue → String
  | .import f t r => f ++ ": import \"" ++ t ++ "\" resolves to " ++ r ++ ", which is not a known contract file"
  | .parent f c p => f ++ ": contract " ++ c ++ " inherits " ++ p ++ ", which is not declared"
  | .malformed f e => f ++ ": transformed code failed to parse: " ++ e.message

end Issue

/-- The part of a dotted name behind the last dot. -/
def simpleName (name : String) : String := String.ofList ((Text.segments '.' name.toList).getLast?.getD [])

/-- Whether a name fits a pattern: a star in front stands for any beginning, else one at the end for any ending. -/
def fitsPattern (name pattern : String) : Bool :=
  match Text.stripStart? ['*'] pattern.toList with
  | some suffix => Text.endsWith suffix name.toList
  | none => match Text.stripEnd? ['*'] pattern.toList with
    | some start => Text.startsWith start name.toList
    | none => name == pattern

/-- Whether a name is that of an interface: `I` and a capital letter. -/
def isInterfaceName : List Char → Bool
  | 'I' :: c :: _ => c.isUpper
  | _ => false

/-- Whether a parent may be declared outside of the repository. -/
def isExternalParent (name : String) (patterns : List String) : Bool :=
  let simple := simpleName name
  isInterfaceName simple.toList || patterns.any (fitsPattern simple)

/-- What is known while files are checked: the paths of files and the names of contracts. -/
structure Known where
  paths : List String
  names : List String

/-- What is known from the contracts of an analysis and from files. -/
def Known.of (contracts : List ContractUnit) (files : List Solidity.ExtractedFile) : Known where
  paths := contracts.map ContractUnit.filePath ++ files.map Solidity.ExtractedFile.filePath
  names := contracts.map ContractUnit.name ++ files.flatMap fun f => f.contracts.map ContractUnit.name

/-- Whether a parent is declared, by its whole name or by the last part of it. -/
def Known.declares (k : Known) (parent : String) : Bool :=
  k.names.contains parent || k.names.contains (simpleName parent)

namespace ConsistencyReport

/-- The report before anything was checked. -/
def unchecked : ConsistencyReport := ⟨false, true, true, [], 0, 0⟩

/-- Checks an import of a file. -/
def checkImport (k : Known) (rules : ConsistencyRules) (f : Solidity.ExtractedFile) (r : ConsistencyReport)
    (target : String) : ConsistencyReport :=
  match Import.check f.filePath target k.paths rules.importPrefixes with
  | .unresolved p =>
    { r with importsValid := false, issues := r.issues ++ [(Issue.import f.filePath target p).message] }
  | _ => r

/-- Checks a parent of a contract. -/
def checkParent (k : Known) (rules : ConsistencyRules) (f : Solidity.ExtractedFile) (c : ContractUnit)
    (r : ConsistencyReport) (parent : String) : ConsistencyReport :=
  if k.declares parent then r
  else if isExternalParent parent rules.parentNames then r
  else { r with inheritanceValid := false, issues := r.issues ++ [(Issue.parent f.filePath c.name parent).message] }

/-- Checks a file, its imports first. -/
def checkFile (k : Known) (rules : ConsistencyRules) (r : ConsistencyReport) (f : Solidity.ExtractedFile) :
    ConsistencyReport :=
  let r := f.imports.foldl (checkImport k rules f) { r with filesChecked := r.filesChecked + 1 }
  f.contracts.foldl (fun r c => c.inherits.foldl (checkParent k rules f c) r) r

end ConsistencyReport

/-- The report on files that were read, seen with the contracts of an analysis. -/
def validateExtracted (contracts : List ContractUnit) (files : List Solidity.ExtractedFile) (rules : ConsistencyRules) :
    ConsistencyReport :=
  if files.isEmpty then .unchecked
  else
    let r := files.foldl (ConsistencyReport.checkFile (.of contracts files) rules) ConsistencyReport.unchecked
    { r with checked := 0 < r.filesChecked }

/-- The report on sources, each a path and a text; those that are not well formed are only counted and listed last. -/
def validateConsistency (a : Analysis) (sources : List (String × String)) (rules : ConsistencyRules) :
    ConsistencyReport :=
  let outcomes := sources.map fun (p, code) => (p, Solidity.extract p code)
  let files := outcomes.filterMap fun (_, o) => o.toOption
  let broken := outcomes.filterMap fun (p, o) => match o with
    | .ok _ => none
    | .error e => some (Issue.malformed p e)
  let report := validateExtracted a.contracts files rules
  let filesChecked := report.filesChecked + min broken.length sources.length
  { report with
    checked := 0 < filesChecked
    issues := report.issues ++ broken.map Issue.message
    filesChecked
    syntaxErrors := broken.length }

namespace ConsistencyReport

def toJson (r : ConsistencyReport) : Json.Value :=
  .object [("checked", .bool r.checked), ("imports_valid", .bool r.importsValid),
    ("inheritance_valid", .bool r.inheritanceValid), ("issues", Json.strings r.issues),
    ("files_checked", .nat r.filesChecked), ("syntax_errors", .nat r.syntaxErrors)]

def reader : Json.Reader ConsistencyReport :=
  Json.record "ConsistencyReport" (ConsistencyReport.mk <$> Json.field "checked" Json.boolean <*>
    Json.field "imports_valid" Json.boolean <*> Json.field "inheritance_valid" Json.boolean <*>
    Json.field "issues" (Json.list Json.string) <*> Json.fieldOr "files_checked" Json.count 0 <*>
    Json.fieldOr "syntax_errors" Json.count 0)

end ConsistencyReport

end ContractMigration
