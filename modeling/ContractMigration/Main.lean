import ContractMigration.CommandLine.Run
import Std.Time.DateTime.Timestamp

/-! The command: reads the files that the arguments speak of, runs, and prints. -/

namespace ContractMigration.CommandLine

/-- What was read of the system. -/
structure Snapshot where
  files : List (Place × List UInt8)
  directories : List Place

/-- The place that an absolute path leads to. -/
def placeOf (path : String) : Place := (Files.names path.toList).filter (· != "")

/-- The path of a place. -/
def absolute (p : Place) : String := "/" ++ Text.join "/" p

/-- Reads one file; one that cannot be read is left out. -/
def readFile (p : Place) : IO (List (Place × List UInt8)) := do
  try
    let b ← IO.FS.readBinFile (absolute p)
    return [(p, b.toList)]
  catch _ => return []

/-- Reads all that lies below a directory. Links are not followed, and directories that no scan enters are passed over but
for the two files that tell of the branch and of rules. -/
partial def readBelow (skipped : List String) (p : Place) : IO Snapshot := do
  let mut found : Snapshot := ⟨[], [p]⟩
  for entry in (← (← IO.FS.realPath (absolute p)).readDir) do
    let q := p ++ [entry.fileName]
    match (← entry.path.symlinkMetadata).type with
    | .dir =>
      let below ← if skipped.contains entry.fileName
        then pure ⟨← [["HEAD"], ["info", "exclude"]].flatMapM fun t => readFile (q ++ t), [q]⟩
        else readBelow skipped q
      found := ⟨found.files ++ below.files, found.directories ++ below.directories⟩
    | .file => found := { found with files := found.files ++ (← readFile q) }
    | _ => pure ()
  return found

/-- Reads what a path leads to, and the rules in the directories above. -/
def readPath (skipped : List String) (path : String) : IO Snapshot := do
  let p := placeOf (← IO.FS.realPath path).toString
  let found ← if (← (← IO.FS.realPath path).isDir) then readBelow skipped p else pure ⟨← readFile p, []⟩
  let tails := [[".ignore"], [".gitignore"], [".git", "info", "exclude"]]
  let rules ← (above p).flatMapM fun d => tails.flatMapM fun t => readFile (d ++ t)
  return { found with files := found.files ++ rules }

/-- Reads what a path leads to; one that leads nowhere adds nothing. -/
def readIfThere (skipped : List String) (path : String) : IO Snapshot := do
  try readPath skipped path
  catch _ => return ⟨[], []⟩

/-- The variables of the environment that settings are read from. -/
def readEnvironment : IO (String → Option String) := do
  let values ← Config.variableNames.mapM fun n => return (n, ← IO.getEnv n)
  return fun n => (values.lookup n).join

/-- The files that an invocation needs: that of the settings, and the checkout. -/
def readFor (i : Invocation) (env : String → Option String) (here : Place) : IO Files := do
  let settings ← match i.configPath with
    | some path => readIfThere [] path
    | none => pure ⟨[], []⟩
  let files : Files := ⟨"", [], here, settings.files, here :: settings.directories⟩
  match i.command, loadConfig i env files with
  | .on _ path _, .ok c =>
    let checkout ← readIfThere c.excludeDirs path
    return { files with
      files := files.files ++ checkout.files
      directories := files.directories ++ checkout.directories }
  | _, _ => return files

/-- A path without links, if it leads anywhere. -/
def withoutLinks (path : String) : IO String := do
  try return (← IO.FS.realPath path).toString
  catch _ => return path

/-- Arguments with a path that has no links. -/
def withoutLinksIn (p : Parsed) : IO Parsed := do
  match p with
  | .run i => match i.command with
    | .on a path key => return .run { i with command := .on a (← withoutLinks path) key }
    | .config => return p
  | _ => return p

/-- The time. -/
def readClock : IO Timestamp := do
  let t ← Std.Time.Timestamp.now
  return ⟨t.toSecondsSinceUnixEpoch.val, t.toNanosecondsSinceUnixEpoch.val.natAbs % 1000000000⟩

end ContractMigration.CommandLine

open ContractMigration CommandLine in
/-- Runs the command. -/
def main (args : List String) : IO UInt32 := do
  let env ← readEnvironment
  let here := placeOf (← IO.FS.realPath ".").toString
  let parsed ← withoutLinksIn (parse args)
  let files ← match parsed with
    | .run i => readFor i env here
    | _ => pure ⟨"", [], here, [], []⟩
  let out := runParsed parsed env files (← readClock)
  IO.print out.stdout
  IO.eprint out.stderr
  return UInt32.ofNat out.exit
