import ContractMigration.CommandLine.Arguments

/-! The texts of help. -/

namespace ContractMigration.CommandLine

/-- What a subcommand does. -/
def Subcommand.about : Subcommand → String
  | .action .ingest => "Scan a checkout and print its metadata and file tree"
  | .action .analyze => "Extract contracts and the dependency graph"
  | .action .graph => "Print only the dependency graph with unresolved references"
  | .action .plan => "Build a migration plan (no generator is configured, so only risk is assessed)"
  | .config => "Print the effective configuration"

/-- A text with spaces behind it up to a width. -/
def padded (width : Nat) (s : String) : String := s ++ String.ofList (List.replicate (width - s.length) ' ')

/-- The lines of a table with two columns. -/
def table (rows : List (String × String)) : List String :=
  let width := ((rows.map fun r => r.1.length).max?).getD 0
  rows.map fun (a, b) => "  " ++ padded width a ++ "  " ++ b

def configRow : String × String :=
  ("    --config <CONFIG>", "TOML configuration file (SOLMIG_* variables still override it)")

def keyRow : String × String :=
  ("    --key <KEY>", "Repository key (owner/name); defaults to local/<directory>, with characters a key cannot hold " ++
    "replaced by \x60-\x60")

def commonRows : List (String × String) :=
  [("-v, --verbose", "Enable debug logging"), ("    --quiet", "Log only warnings and errors"),
    ("    --pretty", "Pretty-print JSON output"), ("-h, --help", "Print help")]

def helpAbout : String := "Print this message or the help of the given subcommand(s)"

/-- The lines of a help text. -/
def helpLines : HelpTopic → List String
  | .all =>
    ["Analyse Solidity repositories and plan migrations", "", "Usage: solmig [OPTIONS] <COMMAND>", "", "Commands:"] ++
      table (Subcommand.all.map (fun s => (s.name, s.about)) ++ [("help", helpAbout)]) ++ ["", "Options:"] ++
      table (configRow :: commonRows ++ [("-V, --version", "Print version")])
  | .subcommand s => match s with
    | .action a =>
      [s.about, "", "Usage: solmig " ++ a.name ++ " [OPTIONS] <PATH>", "", "Arguments:",
        "  <PATH>  Path to the repository checkout", "", "Options:"] ++ table (configRow :: keyRow :: commonRows)
    | .config => [s.about, "", "Usage: solmig config [OPTIONS]", "", "Options:"] ++ table (configRow :: commonRows)
  | .help =>
    [helpAbout, "", "Usage: solmig help [COMMAND]...", "", "Arguments:",
      "  [COMMAND]...  Print help for the subcommand(s)"]

/-- Lines as a text. -/
def unlines (lines : List String) : String := String.join (lines.map (· ++ "\n"))

def helpText (t : HelpTopic) : String := unlines (helpLines t)

def versionText : String := "solmig 0.1.0\n"

def usageText : String :=
  unlines ["error: the arguments do not make a command", "", "Usage: solmig [OPTIONS] <COMMAND>", "",
    "For more information, try '--help'."]

end ContractMigration.CommandLine
