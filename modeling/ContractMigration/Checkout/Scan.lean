import ContractMigration.Checkout.Files
import ContractMigration.Checkout.IgnoreRule
import ContractMigration.Config
import ContractMigration.Repository.Ingest

/-! The files of a checkout that belong to the repository. A file is left out when it, or a directory on the way to it,
is left out: by a rule in a file of rules, by a name that begins with a dot, or by the settings. Files of secrets are
left out as well. -/

namespace ContractMigration

/-- What the settings say of a scan. -/
structure ScanOptions where
  excludeDirs : List String
  excludeSensitive : Bool

/-- What the settings say of a scan. -/
def Config.scanOptions (c : Config) : ScanOptions := ⟨c.excludeDirs, c.excludeSensitive⟩

/-- Rules by the directory that they stand in. -/
abbrev RulesByPlace := List (Place × List IgnoreRule)

/-- The rules of all files that are named by `tail`, seen from the directory that they stand in. -/
def rulesIn (f : Files) (tail : List String) : RulesByPlace :=
  f.files.filterMap fun (p, b) =>
    if tail.isSuffixOf p then some (p.take (p.length - tail.length), IgnoreRule.ofBytes Files.decode? b) else none

/-- The places above a place, the nearest first. -/
def above : Place → List Place
  | [] => []
  | s :: r => (above r).map (s :: ·) ++ [[]]

/-- What one kind of rules says of a place: the nearest directory with a rule about it decides. -/
def verdictOf (rules : RulesByPlace) (p : Place) (isDir : Bool) : Option Verdict :=
  (above p).findSome? fun d => (rules.lookup d).bind fun rs =>
    IgnoreRule.verdict rs (Digest.utf8 (Text.join "/" (p.drop d.length))) isDir

/-- The kinds of rules, those that count more first. -/
structure RuleSets where
  general : RulesByPlace
  shared : RulesByPlace
  own : RulesByPlace

/-- All rules among files. -/
def RuleSets.of (f : Files) : RuleSets where
  general := rulesIn f [".ignore"]
  shared := rulesIn f [".gitignore"]
  own := rulesIn f [".git", "info", "exclude"]

/-- What the rules say of a place. -/
def RuleSets.verdict (x : RuleSets) (p : Place) (isDir : Bool) : Option Verdict :=
  (verdictOf x.general p isDir).or ((verdictOf x.shared p isDir).or (verdictOf x.own p isDir))

/-- Whether a file or directory itself is left out. -/
def isLeftOut (x : RuleSets) (excludeDirs : List String) (p : Place) (isDir : Bool) : Bool :=
  let name := p.getLast?.getD ""
  let ruled := match x.verdict p isDir with
    | some .left => true
    | some .kept => false
    | none => Text.startsWith ['.'] name.toList
  ruled || excludeDirs.contains name

/-- Whether a file below `base` is met when no directory is entered that is left out. -/
def isMet (x : RuleSets) (excludeDirs : List String) (base p : Place) : Bool :=
  let dirs := (above p).filter fun d => Files.isBelow d base
  dirs.all (fun d => !isLeftOut x excludeDirs d true) && !isLeftOut x excludeDirs p false

/-- The path of a file below `base`. -/
def relativePath (base p : Place) : String :=
  String.ofList (Path.slashed (Text.join "/" (p.drop base.length)).toList)

/-- The files of the directory at `root` with their sizes, in the order of their paths. -/
def scanFiles (f : Files) (root : String) (options : ScanOptions) : Except Failure (List (String × Nat)) :=
  match (f.locate root).toOption.filter f.isDirectory with
  | none => .error (.invalidRepository (root ++ " is not a directory"))
  | some base =>
    let rules := RuleSets.of f
    let found := f.files.filter fun (p, _) =>
      Files.isBelow p base && isMet rules options.excludeDirs base p &&
        !(options.excludeSensitive && Glob.isSensitive (p.getLast?.getD ""))
    .ok ((found.map fun (p, b) => (relativePath base p, b.length)).mergeSort fun a b => a.1 ≤ b.1)

/-- The tree of the directory at `root`. -/
def scanTree (f : Files) (root : String) (options : ScanOptions) : Except Failure RepositoryTree :=
  (scanFiles f root options).map RepositoryTree.ofEntries

/-- The texts of the files with contracts; those that cannot be read are left out. -/
def contractSources (f : Files) (root : String) (t : RepositoryTree) : Sources :=
  t.contractFiles.foldl (fun s x => match f.text (Files.join root x.path) with
    | .ok text => Sources.insert x.path text s
    | .error _ => s) []

end ContractMigration
