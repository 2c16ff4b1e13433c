import ContractMigration.Checkout.Scan
import ContractMigration.Pipeline.Product

/-! A checkout as the host of a repository: it answers for whatever key it is asked. Paths that lead out of the checkout
are refused before anything is read. -/

namespace ContractMigration

/-- The directory of a checkout and how it is scanned. -/
structure Checkout where
  root : String
  options : ScanOptions

namespace Checkout

/-- The last name of a path, unless that is a step above. -/
def fileName? (path : String) : Option String :=
  match (Path.components path.toList).getLast? with
  | none => none
  | some s => if s = Path.dotDot then none else some (String.ofList s)

/-- The key made from the name of the directory. -/
def defaultKey (c : Checkout) (f : Files) : Except Failure Key :=
  let name := match f.locate c.root with
    | .ok p => p.getLast?
    | .error _ => fileName? c.root
  match name with
  | none => .error (.invalidRepository c.root)
  | some n => Key.ofParts "local" (String.ofList (Key.segmentOf n.toList))

/-- The branch that is checked out. -/
def branch (c : Checkout) (f : Files) : String :=
  let head := (f.text (Files.join (Files.join c.root ".git") "HEAD")).toOption
  match head.bind fun h => Text.stripStart? "ref: refs/heads/".toList (Text.trimChars h.toList) with
  | some b => String.ofList b
  | none => "local"

/-- Whether a path stays below the directory in which it begins: it is not empty, and no part of it leads out. -/
def staysInside (path : List Char) : Bool := !path.isEmpty && (Path.takenApart path).all Path.Component.isInner

/-- The path of a file in the checkout. -/
def resolve (c : Checkout) (path : String) : Except Failure String :=
  if staysInside path.toList then .ok (Files.join c.root path)
  else .error (.invalidRepository ("path " ++ Text.quoted path ++ " is outside the repository"))

/-- What is known of the repository as a whole. -/
def metadata (c : Checkout) (f : Files) (k : Key) : Except Failure Metadata := do
  let t ← scanTree f c.root c.options
  let bytes := total (t.files.map FileNode.sizeBytes)
  .ok ⟨k.owner, k.name, "file://" ++ c.root, c.branch f, .closed, (bytes + 1023) / 1024⟩

/-- The tree of the repository. -/
def tree (c : Checkout) (f : Files) : Except Failure RepositoryTree := scanTree f c.root c.options

/-- The text of a file in the checkout. -/
def content (c : Checkout) (f : Files) (path : String) : Except Failure String := do
  let p ← c.resolve path
  (f.text p).mapError SystemError.failure

/-- The texts of the files with contracts. -/
def sources (c : Checkout) (f : Files) (t : RepositoryTree) : Sources := contractSources f c.root t

/-- Answers a question to the host; there is no other collaborator. -/
def answer (c : Checkout) (f : Files) (now : Timestamp) : (q : Question) → q.Answer
  | .metadata k => c.metadata f k
  | .tree _ => c.tree f
  | .prefetch _ t => .ok (some (c.sources f t))
  | .content _ path => c.content f path
  | .generate _ => (.error (.internal "no generator") : Except Failure String)
  | .transform _ => (.error (.internal "no transformer") : Except Failure String)
  | .clock => now

/-- Scans and analyses the directory at once. -/
def analysis (c : Checkout) (f : Files) (options : AnalysisOptions) (clock : Clocked) : Except Failure Analysis := do
  let key ← c.defaultKey f
  let t ← c.tree f
  let texts := c.sources f t
  let inputs := t.contractFiles.map fun x => match texts.lookup x.path with
    | some text => ⟨x.path, .ok text⟩
    | none => ⟨x.path, .error "source could not be read"⟩
  .ok (analyze key t.totalFiles inputs options clock)

end Checkout

end ContractMigration
