import ContractMigration.Clock.Timestamp
import ContractMigration.Repository.Key
import ContractMigration.Repository.Tree

/-! What is taken in of a repository: who hosts it, its tree, and the texts of its contracts where these are at hand. -/

namespace ContractMigration

/-- Who may see a repository. -/
inductive Exposure
  | open
  | closed
  deriving DecidableEq

namespace Exposure

def name : Exposure → String
  | .open => "public"
  | .closed => "private"

def all : List Exposure := [.open, .closed]

def reader : Json.Reader Exposure := Json.variant (all.map fun e => ⟨e, [e.name]⟩) none

end Exposure

/-- What the host of a repository tells about it; the size is in kibibytes. -/
structure Metadata where
  owner : String
  name : String
  url : String
  defaultBranch : String
  visibility : Exposure
  sizeKb : Nat
  deriving DecidableEq

/-- Texts by path, in the order of the paths. -/
abbrev Sources := List (String × String)

/-- Sets the text of a path. -/
def Sources.insert (path text : String) : Sources → Sources
  | [] => [(path, text)]
  | (p, t) :: r =>
    if path = p then (path, text) :: r
    else if path < p then (path, text) :: (p, t) :: r
    else (p, t) :: Sources.insert path text r

/-- What was taken in of a repository. -/
structure Ingest where
  key : Key
  metadata : Metadata
  tree : RepositoryTree
  sources : Option Sources
  fetchedAt : Timestamp

/-- The text of a path, if it was taken in with the tree. -/
def Ingest.source? (i : Ingest) (path : String) : Option String := i.sources.bind (List.lookup path ·)

/-! ### JSON -/

namespace Metadata

def toJson (m : Metadata) : Json.Value :=
  .object [("owner", .string m.owner), ("name", .string m.name), ("url", .string m.url),
    ("default_branch", .string m.defaultBranch), ("visibility", .string m.visibility.name), ("size_kb", .nat m.sizeKb)]

def reader : Json.Reader Metadata :=
  Json.record "RepositoryMetadata" (Metadata.mk <$> Json.field "owner" Json.string <*> Json.field "name" Json.string <*>
    Json.field "url" Json.string <*> Json.field "default_branch" Json.string <*>
    Json.field "visibility" Exposure.reader <*> Json.field "size_kb" Json.size)

end Metadata

namespace Sources

def toJson (s : Sources) : Json.Value := .object (s.map fun (p, t) => (p, .string t))

def reader : Json.Reader Sources := Json.map .ok Json.string [] fun s p t => Sources.insert p t s

end Sources

namespace Ingest

def toJson (i : Ingest) : Json.Value :=
  Json.objectOf [("key", some i.key.toJson), ("metadata", some i.metadata.toJson), ("tree", some i.tree.toJson),
    ("sources", i.sources.map Sources.toJson), ("fetched_at", some i.fetchedAt.toJson)]

def reader : Json.Reader Ingest :=
  Json.record "IngestResult" (Ingest.mk <$> Json.field "key" Key.reader <*> Json.field "metadata" Metadata.reader <*>
    Json.field "tree" RepositoryTree.reader <*> Json.fieldOpt "sources" Sources.reader <*>
    Json.field "fetched_at" Timestamp.reader)

end Ingest

end ContractMigration
