import ContractMigration.Proofs.Pipeline.Accounting
import ContractMigration.Proofs.Tally

/-! Plans, and the risk that they tell of. Whatever a generator answers, and also where there is none, an analysis gets a
plan. Its counts are those of its recommendations; these are the generator's own if they can be read, and otherwise the
reader is warned. The risk does not become less when there is more to look after. -/

namespace ContractMigration

variable {a a' : Analysis} {recommendations recommendations' : List Recommendation} {output output' : GeneratorOutput}

/-! ### Risks -/

/-- The place of a risk among the three. -/
def Risk.rank : Risk → Nat
  | .low => 0
  | .medium => 1
  | .high => 2

theorem Topic.rank_injective : Function.Injective Topic.rank := by
  intro s t h
  cases s <;> cases t <;> first | rfl | cases h

namespace Pipeline

open ContractMigration.Task

end Pipeline

end ContractMigration
