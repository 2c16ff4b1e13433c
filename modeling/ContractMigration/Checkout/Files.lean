import ContractMigration.Digest.Sha256
import ContractMigration.Failure
import ContractMigration.Text.Segments

/-! Files and directories as a value. A place is the list of names that leads to it from the root of all places; a path
is text that is followed name by name, as the system does it, and each of its names but the last has to be that of a
directory. -/

namespace ContractMigration

/-- Why the system refuses a path. -/
inductive SystemError
  | notFound
  | notDirectory
  | isDirectory
  | nameTooLong
  | nulInPath
  | notUtf8
  deriving DecidableEq

def SystemError.message : SystemError → String
  | .notFound => "No such file or directory (os error 2)"
  | .notDirectory => "Not a directory (os error 20)"
  | .isDirectory => "Is a directory (os error 21)"
  | .nameTooLong => "File name too long (os error 36)"
  | .nulInPath => "file name contained an unexpected NUL byte"
  | .notUtf8 => "stream did not contain valid UTF-8"

def SystemError.failure (e : SystemError) : Failure := .io e.message

/-- The names that lead from the root to a file or directory. -/
abbrev Place := List String

/-- Files with their bytes, and directories, which need only be listed when nothing is in them. Paths that begin with
`root` are followed from the directory `home`, and those that do not begin at a root from the directory `here`. -/
structure Files where
  root : String
  home : Place
  here : Place
  files : List (Place × List UInt8)
  directories : List Place

namespace Files

/-- Whether one place lies below another. -/
def isBelow (p q : Place) : Bool := q.isPrefixOf p && p != q

def isFile (f : Files) (p : Place) : Bool := (f.files.lookup p).isSome

def isDirectory (f : Files) (p : Place) : Bool :=
  p.isPrefixOf f.home || f.directories.any (fun d => p.isPrefixOf d) || f.files.any fun x => isBelow x.1 p

/-- How many bytes one name may have. -/
def maxNameSize : Nat := 255

/-- How many bytes a path may have. -/
def maxPathSize : Nat := 4095

/-- Follows names from a place. -/
def follow (f : Files) : Place → List String → Except SystemError Place
  | p, [] => .ok p
  | p, s :: r =>
    if !f.isDirectory p then .error .notDirectory
    else if s = "" ∨ s = "." then follow f p r
    else if s = ".." then follow f p.dropLast r
    else if maxNameSize < s.utf8ByteSize then .error .nameTooLong
    else if f.isFile (p ++ [s]) || f.isDirectory (p ++ [s]) then follow f (p ++ [s]) r
    else .error .notFound

/-- The names in a path. -/
def names (path : List Char) : List String := (Text.segments '/' path).map String.ofList

/-- The place that a path leads to. -/
def locate (f : Files) (path : String) : Except SystemError Place :=
  if path.contains '\x00' then .error .nulInPath
  else if path = "" then .error .notFound
  else if maxPathSize < path.utf8ByteSize then .error .nameTooLong
  else if path = f.root then .ok f.home
  else match Text.stripStart? (f.root ++ "/").toList path.toList with
    | some rest => f.follow f.home (names rest)
    | none => if Text.startsWith ['/'] path.toList then .error .notFound else f.follow f.here (names path.toList)

/-- The way from one place to another: steps above, then names. -/
def wayTo : Place → Place → List String
  | s :: r, t :: u => if s = t then wayTo r u else (s :: r).map (fun _ => "..") ++ t :: u
  | p, q => p.map (fun _ => "..") ++ q

/-- How a place is written. -/
def pathOf (f : Files) (p : Place) : String :=
  let s := f.root ++ String.join ((wayTo f.home p).map ("/" ++ ·))
  if s = "" then "/" else s

/-- The bytes of a file. -/
def bytes (f : Files) (path : String) : Except SystemError (List UInt8) := do
  let p ← f.locate path
  match f.files.lookup p with
  | some b => .ok b
  | none => .error .isDirectory

/-- Bytes as text. -/
def decode? (b : List UInt8) : Option String := String.fromUTF8? ⟨b.toArray⟩

/-- The text of a file. -/
def text (f : Files) (path : String) : Except SystemError String := do
  match decode? (← f.bytes path) with
  | some s => .ok s
  | none => .error .notUtf8

/-- A path followed by another one, which counts alone if it begins at the root of the system or nothing is in front. -/
def join (path next : String) : String :=
  if path = "" ∨ Text.startsWith ['/'] next.toList then next
  else if Text.endsWith ['/'] path.toList then path ++ next
  else path ++ "/" ++ next

/-- The digest of a file. -/
def contentHash (f : Files) (path : String) : Except Failure String :=
  match f.bytes path with
  | .ok b => .ok (Digest.hex (Digest.sha256 b))
  | .error e => .error e.failure

end Files

end ContractMigration
