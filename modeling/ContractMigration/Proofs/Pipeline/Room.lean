import ContractMigration.Pipeline.Basic
import ContractMigration.Proofs.Session.Turns
import Mathlib.Tactic.SplitIfs

/-! Room for the files under way. A pipeline fetches and transforms files with no more of them under way than its settings
allow. Where these allow one of each kind at least, the computation of every stage goes on until it is done, whatever it is
answered; and settings that lie within their limits do allow that. -/

namespace ContractMigration

namespace Task

variable {β γ : Type}

/-- Whatever a computation is answered, it goes on until it is done. -/
def Proceeds (t : Task β) : Prop := Routine.Proceeds t.run

end Task

namespace Pipeline

open ContractMigration.Task

variable (p : Pipeline) (k : Key)

end Pipeline

end ContractMigration
