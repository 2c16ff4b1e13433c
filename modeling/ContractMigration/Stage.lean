import ContractMigration.Json.Reader

/-! The four stages of a migration. Each one works on what the stages before it made. -/

namespace ContractMigration

/-- A stage of a migration. -/
inductive Stage
  | tree
  | analysis
  | plan
  | transform
  deriving DecidableEq

namespace Stage

def name : Stage → String
  | .tree => "tree"
  | .analysis => "analysis"
  | .plan => "plan"
  | .transform => "transform"

/-- The place of a stage. -/
def rank : Stage → Nat
  | .tree => 0
  | .analysis => 1
  | .plan => 2
  | .transform => 3

/-- The stages in order. -/
def all : List Stage := [.tree, .analysis, .plan, .transform]

/-- The stages behind this one. -/
def downstream (s : Stage) : List Stage := all.filter fun t => s.rank < t.rank

/-- This stage and those behind it. -/
def andDownstream (s : Stage) : List Stage := all.filter fun t => s.rank ≤ t.rank

/-- This stage and those before it. -/
def upToHere (s : Stage) : List Stage := all.filter fun t => t.rank ≤ s.rank

def ofName? (n : String) : Option Stage := all.find? fun s => s.name == n

def reader : Json.Reader Stage := Json.variant (all.map fun s => ⟨s, [s.name]⟩) none

end Stage

end ContractMigration
