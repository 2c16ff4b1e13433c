import ContractMigration.Stage

/-! One place for each stage of a migration. -/

namespace ContractMigration

/-- A value for each stage. -/
structure Slots (β : Type) where
  tree : β
  analysis : β
  plan : β
  transform : β

namespace Slots

variable {β : Type}

/-- The same value for every stage. -/
def fill (b : β) : Slots β := ⟨b, b, b, b⟩

def get (x : Slots β) : Stage → β
  | .tree => x.tree
  | .analysis => x.analysis
  | .plan => x.plan
  | .transform => x.transform

def set (x : Slots β) (s : Stage) (b : β) : Slots β :=
  match s with
  | .tree => { x with tree := b }
  | .analysis => { x with analysis := b }
  | .plan => { x with plan := b }
  | .transform => { x with transform := b }

/-- Changes the values of some stages. -/
def modify (x : Slots β) (stages : List Stage) (f : β → β) : Slots β :=
  stages.foldl (fun x s => x.set s (f (x.get s))) x

@[simp] theorem get_fill (b : β) (s : Stage) : (fill b).get s = b := by cases s <;> rfl

@[simp] theorem get_set_self (x : Slots β) (s : Stage) (b : β) : (x.set s b).get s = b := by cases s <;> rfl

theorem get_set_ne (x : Slots β) {s t : Stage} (b : β) (h : t ≠ s) : (x.set s b).get t = x.get t := by
  cases s <;> cases t <;> simp_all [get, set]

end Slots

end ContractMigration
