import ContractMigration.Repository.Category
import ContractMigration.Tally

/-! The files of a repository as a tree of directories, with counts by category. A tree is built from any listing of
paths and sizes: paths are cleaned, sorted, and listed once each with the smallest size given. -/

namespace ContractMigration

/-- One file of a repository. -/
structure FileNode where
  path : String
  name : String
  sizeBytes : Nat
  category : Category
  deriving DecidableEq

/-- A directory: its files, then its directories. -/
inductive Directory
  | mk (path : String) (files : List FileNode) (directories : List Directory)

namespace Directory

def path : Directory → String
  | mk p _ _ => p

def files : Directory → List FileNode
  | mk _ fs _ => fs

def directories : Directory → List Directory
  | mk _ _ ds => ds

/-- The directory at that path without anything in it. -/
def empty (path : String) : Directory := mk path [] []

/-- Changes the directory at `path`, the first of that path or a new one at the end. -/
def update (path : String) (f : Directory → Directory) : List Directory → List Directory
  | [] => [f (empty path)]
  | d :: r => if d.path = path then f d :: r else d :: update path f r

/-- The path of a directory named `name` in the directory at `base`. -/
def child (base name : List Char) : List Char := if base.isEmpty then name else base ++ '/' :: name

/-- Puts a file below the directory at `base`, in the directories `dirs` inside each other. -/
def insert (file : FileNode) : List (List Char) → List Char → Directory → Directory
  | [], _, mk p fs ds => mk p (fs ++ [file]) ds
  | d :: dirs, base, mk p fs ds =>
    let inner := child base d
    mk p fs (update (String.ofList inner) (insert file dirs inner) ds)

mutual

/-- All files, those of a directory before those of its directories. -/
def allFiles : Directory → List FileNode
  | mk _ fs ds => fs ++ allFilesOf ds

/-- All files of the directories in turn. -/
def allFilesOf : List Directory → List FileNode
  | [] => []
  | d :: r => allFiles d ++ allFilesOf r

end

end Directory

/-- The tree of a repository and how many files there are of each category. -/
structure RepositoryTree where
  root : Directory
  counts : Tally Category

namespace RepositoryTree

/-- A path without slashes at its ends; backslashes count as slashes. -/
def cleanPath (path : List Char) : List Char := Text.trimWhere (· == '/') (Path.slashed path)

/-- Order by path, then by size. -/
def entryLe (a b : String × Nat) : Bool := if a.1 = b.1 then a.2 ≤ b.2 else a.1 < b.1

/-- Keeps the first of entries with the same path that follow each other. -/
def firstOfEach : List (String × Nat) → List (String × Nat)
  | [] => []
  | a :: r => match firstOfEach r with
    | [] => [a]
    | b :: r => if a.1 = b.1 then a :: r else a :: b :: r

/-- The cleaned listing in order, each path once. -/
def listing (entries : List (String × Nat)) : List (String × Nat) :=
  let cleaned := entries.map fun (p, n) => (String.ofList (cleanPath p.toList), n)
  firstOfEach ((cleaned.filter fun e => e.1 != "").mergeSort entryLe)

/-- The node of a listed file. -/
def nodeOf (path : String) (size : Nat) : FileNode where
  path := path
  name := String.ofList ((Text.segments '/' path.toList).getLast?.getD [])
  sizeBytes := size
  category := .ofPath path

/-- Puts a listed file into its directory. -/
def place (root : Directory) (entry : String × Nat) : Directory :=
  root.insert (nodeOf entry.1 entry.2) (Text.segments '/' entry.1.toList).dropLast []

/-- The tree of a listing. -/
def ofEntries (entries : List (String × Nat)) : RepositoryTree :=
  let flat := listing entries
  { root := flat.foldl place (Directory.empty "")
    counts := .ofList Category.rank (flat.map fun e => .ofPath e.1) }

/-- All files, directory by directory. -/
def files (t : RepositoryTree) : List FileNode := t.root.allFiles

/-- The files with contracts, ordered by path. -/
def contractFiles (t : RepositoryTree) : List FileNode :=
  (t.files.filter fun f => f.category = .contract).mergeSort fun a b => a.path ≤ b.path

/-- How many files the counts add up to. -/
def totalFiles (t : RepositoryTree) : Nat := t.counts.total

end RepositoryTree

/-! ### JSON -/

namespace FileNode

def toJson (f : FileNode) : Json.Value :=
  .object [("path", .string f.path), ("name", .string f.name), ("size_bytes", .nat f.sizeBytes),
    ("category", .string f.category.name)]

def reader : Json.Reader FileNode :=
  Json.record "FileNode" (FileNode.mk <$> Json.field "path" Json.string <*> Json.field "name" Json.string <*>
    Json.field "size_bytes" Json.size <*> Json.field "category" Category.reader)

end FileNode

namespace Directory

mutual

def toJson : Directory → Json.Value
  | mk p fs ds => .object [("path", .string p), ("files", .list (fs.map FileNode.toJson)), ("directories", .list (listToJson ds))]

def listToJson : List Directory → List Json.Value
  | [] => []
  | d :: r => toJson d :: listToJson r

end

/-- Reads a directory; `levels` bounds how deep directories are read. -/
def readerWithin : (levels : Nat) → Json.Reader Directory
  | 0 => fun _ => .error .tooDeep
  | levels + 1 => Json.record "DirectoryNode" (Directory.mk <$> Json.field "path" Json.string <*>
      Json.field "files" (Json.list FileNode.reader) <*> Json.field "directories" (Json.list (readerWithin levels)))

/-- Reads a directory. Each level opens two brackets, so the bound on brackets is met first. -/
def reader : Json.Reader Directory := readerWithin Json.maxDepth

end Directory

namespace RepositoryTree

def toJson (t : RepositoryTree) : Json.Value :=
  .object [("root", t.root.toJson), ("counts", t.counts.toJson Category.name)]

def reader : Json.Reader RepositoryTree :=
  Json.record "RepositoryTree" (RepositoryTree.mk <$> Json.field "root" Directory.reader <*>
    Json.field "counts" (Tally.reader Category.rank Category.cases none))

end RepositoryTree

end ContractMigration
