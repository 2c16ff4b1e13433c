import ContractMigration.Plan.Reply

/-! From an analysis and the reply of a generator to a plan. A reply that cannot be read gives one recommendation to look
by hand; without a reply there are none. -/

namespace ContractMigration

/-- Recommendations, how they were obtained, and what the reader of the plan should know. -/
structure Advice where
  recommendations : List Recommendation
  output : GeneratorOutput
  warnings : List String

/-- The advice in what a generator answered; `none` if there is no generator. -/
def Advice.ofReply : Option (Except Failure String) → Advice
  | none => ⟨[], .unavailable, ["no recommendation generator configured"]⟩
  | some (.error e) => ⟨[], .unavailable, ["recommendation generator failed: " ++ e.message]⟩
  | some (.ok raw) => match readRecommendations raw with
    | .valid rs => ⟨rs, .valid, []⟩
    | .malformed _ reason =>
      ⟨[fallbackRecommendation reason], .malformed, ["recommendation generator returned malformed output: " ++ reason]⟩

/-- The plan for an analysis. -/
def makePlan (key : Key) (a : Analysis) (reply : Option (Except Failure String)) (now : Timestamp) : Plan :=
  let advice := Advice.ofReply reply
  { key
    summary := a.summary
    recommendations := advice.recommendations
    byTopic := countTopics advice.recommendations
    risk := assessRisk a advice.recommendations advice.output
    output := advice.output
    warnings := advice.warnings
    createdAt := now }

/-! ### Recommendations by file -/

/-- What is known of some recommendations: those for known files by file, in the order of paths, what the reader of a report
should know, and how many are for no file. -/
structure Grouping where
  groups : List (String × List Recommendation)
  warnings : List String
  untargeted : Nat

namespace Grouping

/-- Puts a recommendation behind the others for its file. -/
def enter (r : Recommendation) : List (String × List Recommendation) → List (String × List Recommendation)
  | [] => [(r.filePath, [r])]
  | (path, rs) :: rest =>
    if r.filePath = path then (path, rs ++ [r]) :: rest
    else if r.filePath < path then (r.filePath, [r]) :: (path, rs) :: rest
    else (path, rs) :: enter r rest

/-- Takes in one more recommendation. -/
def add (known : List String) (g : Grouping) (r : Recommendation) : Grouping :=
  if r.filePath = "" then { g with untargeted := g.untargeted + 1 }
  else if known.contains r.filePath then { g with groups := enter r g.groups }
  else { g with warnings := g.warnings ++ ["recommendation for unknown file " ++ r.filePath ++ " ignored"] }

/-- Takes in recommendations one after the other, with some warnings to begin with. -/
def of (known warnings : List String) (recommendations : List Recommendation) : Grouping :=
  recommendations.foldl (add known) ⟨[], warnings, 0⟩

/-- All the warnings, with one about recommendations that no file can take up. -/
def allWarnings (g : Grouping) : List String :=
  if 0 < g.untargeted then
    g.warnings ++ [toString g.untargeted ++ " recommendation(s) without a target file need manual review"]
  else g.warnings

end Grouping

end ContractMigration
