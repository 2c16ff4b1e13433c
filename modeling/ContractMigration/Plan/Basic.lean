import ContractMigration.Analysis.Basic
import ContractMigration.Tally

/-! Migration plans: recommendations for files, what they are about and how sure they are, and the risk of following
them. -/

namespace ContractMigration

/-- What a recommendation is about. -/
inductive Topic
  | architecture
  | security
  | gas
  | upgradeability
  | compatibility
  | testing
  | other
  deriving DecidableEq

namespace Topic

def name : Topic → String
  | .architecture => "architecture"
  | .security => "security"
  | .gas => "gas"
  | .upgradeability => "upgradeability"
  | .compatibility => "compatibility"
  | .testing => "testing"
  | .other => "other"

/-- The place of a topic in the order of counts. -/
def rank : Topic → Nat
  | .architecture => 0
  | .security => 1
  | .gas => 2
  | .upgradeability => 3
  | .compatibility => 4
  | .testing => 5
  | .other => 6

def all : List Topic := [.architecture, .security, .gas, .upgradeability, .compatibility, .testing, .other]

def cases : List (Json.Case Topic) := all.map fun t => ⟨t, [t.name]⟩

/-- Reads a topic; a name that is not known is another topic. -/
def reader : Json.Reader Topic := Json.variant cases (some .other)

end Topic

/-- How sure a recommendation or a change is. -/
inductive Level
  | high
  | medium
  | low
  deriving DecidableEq

namespace Level

def name : Level → String
  | .high => "high"
  | .medium => "medium"
  | .low => "low"

/-- The spellings of a level, in the order in which messages list them. -/
def cases : List (Json.Case Level) :=
  [⟨.high, ["HIGH", "High", "high"]⟩, ⟨.medium, ["MEDIUM", "Medium", "medium"]⟩, ⟨.low, ["LOW", "Low", "low"]⟩]

def reader : Json.Reader Level := Json.variant cases none

end Level

/-- A change that is recommended for a file; an empty path names no file. -/
structure Recommendation where
  filePath : String
  contractName : Option String
  topic : Topic
  description : String
  rationale : String
  level : Level
  deriving DecidableEq

/-- The risk of following a plan. -/
inductive Risk
  | low
  | medium
  | high
  deriving DecidableEq

namespace Risk

def name : Risk → String
  | .low => "low"
  | .medium => "medium"
  | .high => "high"

def all : List Risk := [.low, .medium, .high]

def reader : Json.Reader Risk := Json.variant (all.map fun r => ⟨r, [r.name]⟩) none

end Risk

/-- How the recommendations of a plan were obtained. -/
inductive GeneratorOutput
  | valid
  | malformed
  | unavailable
  deriving DecidableEq

namespace GeneratorOutput

def name : GeneratorOutput → String
  | .valid => "valid"
  | .malformed => "malformed"
  | .unavailable => "unavailable"

def all : List GeneratorOutput := [.valid, .malformed, .unavailable]

def reader : Json.Reader GeneratorOutput := Json.variant (all.map fun o => ⟨o, [o.name]⟩) none

end GeneratorOutput

/-- Recommendations for a repository, counted by topic, with the risk of following them. -/
structure Plan where
  key : Key
  summary : AnalysisSummary
  recommendations : List Recommendation
  byTopic : Tally Topic
  risk : Risk
  output : GeneratorOutput
  warnings : List String
  createdAt : Timestamp

/-- How many recommendations on security make the risk high. -/
def highRiskSecurity : Nat := 3

/-- The risk of following recommendations: high with contracts behind proxies or three matters of security, medium with
one, with a file that could not be used, or with recommendations that are not the generator's own. -/
def assessRisk (a : Analysis) (recommendations : List Recommendation) (output : GeneratorOutput) : Risk :=
  let security := (recommendations.filter fun r => r.topic == .security).length
  if !a.upgradeable.value.isEmpty || highRiskSecurity ≤ security then .high
  else if 0 < security || !a.parseErrors.isEmpty || output != .valid then .medium
  else .low

/-- How many recommendations there are of each topic that occurs. -/
def countTopics (recommendations : List Recommendation) : Tally Topic :=
  .ofList Topic.rank (recommendations.map Recommendation.topic)

/-- The recommendation that stands for replies that could not be read. -/
def fallbackRecommendation (reason : String) : Recommendation where
  filePath := ""
  contractName := none
  topic := .architecture
  description := "Manual review required: automated recommendations could not be parsed (" ++ reason ++ ")"
  rationale :=
    "Recommendation response parsing requires verification; the generator output was not valid JSON"
  level := .low

end ContractMigration
