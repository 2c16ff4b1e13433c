import ContractMigration.Repository.Path

/-! Imports and the files they name. An import that begins with a dot segment is followed from the directory of the file
it stands in, every other one from the root of the repository; some prefixes mark packages outside of it. -/

namespace ContractMigration.Import

/-- Prefixes of packages outside the repository. -/
def externalPrefixes : List String :=
  ["@", "node_modules/", "forge-std/", "ds-test/", "solmate/", "solady/", "openzeppelin", "hardhat/", "lib/"]

/-- Whether an import is followed from the directory of its file. -/
def isRelative (target : List Char) : Bool :=
  Text.startsWith "./".toList target || Text.startsWith "../".toList target

/-- The path an import names, seen from the file `source`. -/
def resolveChars (source target : List Char) : List Char :=
  let target := Path.slashed target
  if isRelative target then
    let dir := Path.parent source
    Path.normalizeChars (Path.slashed (if dir.isEmpty then target else dir ++ '/' :: target))
  else Path.normalizeChars target

/-- The path an import names, seen from the file `source`. -/
def resolve (source target : String) : String := String.ofList (resolveChars source.toList target.toList)

/-- Whether an import names a package or an address outside the repository. -/
def isExternal (target : String) (prefixes : List String) : Bool :=
  let t := target.toList
  !isRelative t && (Text.contains "://".toList t || Text.contains "node_modules/".toList t ||
    prefixes.any fun p => Text.startsWith p.toList t)

/-- What an import leads to. -/
inductive Resolution
  | resolved (path : String)
  | external
  | unresolved (path : String)
  deriving DecidableEq

/-- Checks an import against the files that are known. -/
def check (source target : String) (known : List String) (prefixes : List String) : Resolution :=
  if isExternal target prefixes then .external
  else
    let path := resolve source target
    if known.contains path then .resolved path else .unresolved path

end ContractMigration.Import
