import ContractMigration.Failure
import ContractMigration.Text.Blank

/-! The identity of a repository: its owner and its name. A key is read from `owner/name`, from the address of a
repository on the web, or from the short form for secure shells; all three spellings give the same key. -/

namespace ContractMigration

/-- Owner and name of a repository. Letters of different case differ. -/
structure Key where
  owner : String
  name : String
  deriving DecidableEq

namespace Key

/-- Letters, digits, `-`, `_` and `.` of ASCII. -/
def isKeyChar (c : Char) : Bool := c.isAlphanum || c == '-' || c == '_' || c == '.'

/-- A part of a key: not empty, only key characters, and not a name for a directory itself or the one above. -/
def isSegment (s : List Char) : Bool := !s.isEmpty && s != ['.'] && s != ['.', '.'] && s.all isKeyChar

/-- `owner/name`. -/
def text (k : Key) : String := k.owner ++ "/" ++ k.name

/-- The address of the repository on the web. -/
def url (k : Key) : String := "https://github.com/" ++ k.owner ++ "/" ++ k.name

/-- The key of an owner and a name that are segments. -/
def ofParts (owner name : String) : Except Failure Key :=
  if isSegment owner.toList && isSegment name.toList then .ok ⟨owner, name⟩
  else .error (.invalidRepository (owner ++ "/" ++ name))

/-- The path part of an identifier: what follows the host, if one is written. -/
def pathPart? (s : List Char) : Option (List Char) :=
  match Text.stripStart? "https://".toList s <|> Text.stripStart? "http://".toList s with
  | some rest => (Text.cutAt? '/' rest).map Prod.snd
  | none => match Text.stripStart? "git@".toList s with
    | some rest => (Text.cutAt? ':' rest).map Prod.snd
    | none => if Text.contains "://".toList s then none else some s

/-- The path without slashes at its end and without one `.git`. -/
def bare (path : List Char) : List Char :=
  let path := Text.dropWhileEnd (· == '/') path
  (Text.stripEnd? ".git".toList path).getD path

/-- The key that an identifier spells, if any. -/
def parse? (identifier : List Char) : Option Key := do
  let path ← pathPart? (Text.trimChars identifier)
  match Text.segments '/' (bare path) with
  | [owner, name] =>
    if isSegment owner && isSegment name then some ⟨String.ofList owner, String.ofList name⟩ else none
  | _ => none

/-- Reads an identifier; a failure carries it as it was given. -/
def parse (identifier : String) : Except Failure Key :=
  match parse? identifier.toList with
  | some k => .ok k
  | none => .error (.invalidRepository identifier)

/-- Adds one character to a segment made from any name: characters that keys do not have become one hyphen. -/
def addToSegment (out : List Char) (c : Char) : List Char :=
  let kept := c.isAlphanum || c == '_' || c == '.'
  if kept then out ++ [c]
  else if out.getLast? == some '-' then out
  else out ++ ['-']

/-- A segment for any name, such as that of a directory. -/
def segmentOf (raw : List Char) : List Char :=
  let s := Text.trimWhere (fun c => c == '-' || c == '.') (raw.foldl addToSegment [])
  if s.isEmpty then "repository".toList else s

def toJson (k : Key) : Json.Value := .object [("owner", .string k.owner), ("name", .string k.name)]

def reader : Json.Reader Key :=
  Json.record "RepoKey" (Key.mk <$> Json.field "owner" Json.string <*> Json.field "name" Json.string)

end Key

end ContractMigration
