import ContractMigration.Json.Reader

/-! Counts by a key of finitely many, listed in the order of the keys' ranks. Keys that do not occur are not listed. -/

namespace ContractMigration

/-- The sum of counts. -/
def total (counts : List Nat) : Nat := counts.foldr (· + ·) 0

/-- Keys and how often they occur. -/
abbrev Tally (α : Type) := List (α × Nat)

namespace Tally

variable {α : Type} [DecidableEq α]

/-- Counts one more of a key. -/
def add (rank : α → Nat) (a : α) : Tally α → Tally α
  | [] => [(a, 1)]
  | (b, n) :: r =>
    if a = b then (b, n + 1) :: r
    else if rank a < rank b then (a, 1) :: (b, n) :: r
    else (b, n) :: add rank a r

/-- Sets the count of a key. -/
def set (rank : α → Nat) (a : α) (n : Nat) : Tally α → Tally α
  | [] => [(a, n)]
  | (b, m) :: r =>
    if a = b then (b, n) :: r
    else if rank a < rank b then (a, n) :: (b, m) :: r
    else (b, m) :: set rank a n r

/-- Counts the keys of a list. -/
def ofList (rank : α → Nat) (keys : List α) : Tally α := keys.foldl (fun t a => add rank a t) []

/-- The sum of all counts. -/
def total (t : Tally α) : Nat := ContractMigration.total (t.map Prod.snd)

def toJson (name : α → String) (t : Tally α) : Json.Value := .object (t.map fun (a, n) => (name a, .nat n))

def reader (rank : α → Nat) (cases : List (Json.Case α)) (otherwise : Option α) : Json.Reader (Tally α) :=
  Json.map (Json.choose cases otherwise) Json.count [] fun t a n => set rank a n t

end Tally

end ContractMigration
