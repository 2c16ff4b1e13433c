import ContractMigration.Plan.Basic

/-! Scores as decimal fractions. The arithmetic of scores is the same for doubles, which reports show, and for rational
numbers, which are exact. -/

namespace ContractMigration

/-- Numbers that scores are computed with. -/
class Score (α : Type) extends Add α, Sub α, Mul α, Div α where
  /-- A number of units of `10 ^ -places`. -/
  decimal : (units places : Nat) → α
  ofNat : Nat → α
  larger : α → α → α
  /-- The nearest hundredth, away from zero if two are as near. -/
  roundHundredths : α → α

instance : Score Float where
  decimal units places := Float.ofScientific units true places
  ofNat n := (UInt64.ofNat n).toFloat
  larger a b := if a < b then b else a
  roundHundredths v := (v * 100.0).round / 100.0

/-- The nearest integer to a rational number, away from zero if two are as near. -/
def Rat.roundAway (q : Rat) : Int := if 0 ≤ q then (q + 1 / 2).floor else (q - 1 / 2).ceil

instance : Score Rat where
  decimal units places := mkRat units (Nat.pow 10 places)
  ofNat n := n
  larger a b := if a < b then b else a
  roundHundredths v := (Rat.roundAway (v * 100) : Rat) / 100

/-- The weight of a level. -/
def Level.weight {α : Type} [Score α] : Level → α
  | .high => Score.decimal 9 1
  | .medium => Score.decimal 7 1
  | .low => Score.decimal 4 1

/-- The sum of scores, from the first to the last. -/
def Score.sum {α : Type} [Score α] : List α → α
  | [] => Score.ofNat 0
  | a :: r => r.foldl (· + ·) a

/-- The mean of scores. -/
def Score.mean {α : Type} [Score α] (xs : List α) : α := Score.sum xs / Score.ofNat xs.length

end ContractMigration
