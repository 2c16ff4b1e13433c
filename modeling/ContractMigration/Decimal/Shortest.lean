/-! The decimal text of a double: the fewest digits that read back, nearest to the value among those. A finite double
is `m * 2 ^ q`; the reals that round to it form an interval whose ends belong to it exactly when `m` is even. For one,
two, ... seventeen digits the two neighbours of the value on that decimal grid are tried in exact arithmetic, and the
first grid with a point of the interval wins. -/

namespace ContractMigration.Decimal

/-- A positive decimal `digits * 10 ^ exponent`. -/
structure Scaled where
  digits : Nat
  exponent : Int

/-- The quotient of two naturals as the value of a scaled number `a / b`. -/
structure Ratio where
  num : Nat
  den : Nat

namespace Ratio

/-- `m * 2 ^ q`. -/
def ofBinary (m : Nat) (q : Int) : Ratio :=
  if 0 ≤ q then ⟨m * Nat.pow 2 q.toNat, 1⟩ else ⟨m, Nat.pow 2 (-q).toNat⟩

/-- The ratio divided by `10 ^ k`. -/
def shift (r : Ratio) (k : Int) : Ratio :=
  if 0 ≤ k then ⟨r.num, r.den * Nat.pow 10 k.toNat⟩ else ⟨r.num * Nat.pow 10 (-k).toNat, r.den⟩

/-- Comparison of `n` with the ratio. -/
def le (r : Ratio) (n : Nat) : Bool := r.num ≤ n * r.den

/-- Strict comparison of `n` with the ratio. -/
def lt (r : Ratio) (n : Nat) : Bool := r.num < n * r.den

/-- The least number of tenfold steps, at most `fuel`, that bring the ratio to one or more. -/
def stepsToOne : Nat → Ratio → Nat
  | 0, _ => 0
  | fuel + 1, r => if r.den ≤ r.num then 0 else stepsToOne fuel ⟨r.num * 10, r.den⟩ + 1

/-- The exponent of the leading decimal digit. -/
def leading (r : Ratio) : Int :=
  if r.den ≤ r.num then ((Nat.toDigits 10 (r.num / r.den)).length : Int) - 1 else -(stepsToOne 400 r : Int)

end Ratio

/-- The reals that round to a double: its value and the two ends. -/
structure Neighbourhood where
  value : Ratio
  low : Ratio
  high : Ratio
  closed : Bool

namespace Neighbourhood

/-- The interval of `m * 2 ^ q`; below a power of two the neighbour is half as far. -/
def ofBinary (m : Nat) (q : Int) (isPower : Bool) : Neighbourhood where
  value := .ofBinary m q
  low := if isPower then .ofBinary (4 * m - 1) (q - 2) else .ofBinary (2 * m - 1) (q - 1)
  high := .ofBinary (2 * m + 1) (q - 1)
  closed := m % 2 == 0

/-- Whether `d * 10 ^ k` rounds to the double. -/
def holds (i : Neighbourhood) (k : Int) (d : Nat) : Bool :=
  let low := i.low.shift k
  let high := i.high.shift k
  if i.closed then low.le d && d * high.den ≤ high.num else low.lt d && d * high.den < high.num

/-- The point of the grid of width `10 ^ k` that rounds to the double and is nearest to it, the even one on a tie. -/
def onGrid? (i : Neighbourhood) (k : Int) : Option Scaled :=
  let v := i.value.shift k
  let d := v.num / v.den
  let r := v.num % v.den
  match i.holds k d && d != 0, i.holds k (d + 1) with
  | true, true =>
    if 2 * r < v.den then some ⟨d, k⟩
    else if v.den < 2 * r then some ⟨d + 1, k⟩
    else some ⟨if d % 2 = 0 then d else d + 1, k⟩
  | true, false => some ⟨d, k⟩
  | false, true => some ⟨d + 1, k⟩
  | false, false => none

/-- The first grid with a point, among those with `n`, `n + 1`, ... digits. -/
def search (i : Neighbourhood) (top : Int) : Nat → Nat → Scaled
  | _, 0 => ⟨0, 0⟩
  | n, fuel + 1 => (i.onGrid? (top - n + 1)).getD (search i top (n + 1) fuel)

end Neighbourhood

/-- The parts of a double. -/
inductive Parts
  | zero (negative : Bool)
  | finite (negative : Bool) (m : Nat) (q : Int) (isPower : Bool)
  | infinite (negative : Bool)
  | nan

/-- Reads sign, exponent and fraction off the bits. -/
def Parts.ofFloat (f : Float) : Parts :=
  let bits : Nat := f.toBits.toNat
  let negative := bits / Nat.pow 2 63 == 1
  let e : Nat := bits / Nat.pow 2 52 % Nat.pow 2 11
  let frac : Nat := bits % Nat.pow 2 52
  if e = 2047 then if frac = 0 then .infinite negative else .nan
  else if e = 0 then if frac = 0 then .zero negative else .finite negative frac (-1074) false
  else .finite negative (Nat.pow 2 52 + frac) ((e : Int) - 1075) (frac == 0 && e != 1)

/-- The shortest decimal that reads back as `m * 2 ^ q`. -/
def shortest (m : Nat) (q : Int) (isPower : Bool) : Scaled :=
  let i := Neighbourhood.ofBinary m q isPower
  i.search i.value.leading 1 18

/-- Where positional writing ends: the decimal point may stand after any number of digits from `lowest` to `highest`,
counted from the first digit; beyond that an exponent with its sign is written. -/
structure Layout where
  lowest : Int
  highest : Int

/-- Drops the zeros at the end of the digits. -/
def Scaled.normalise : Nat → Scaled → Scaled
  | 0, d => d
  | fuel + 1, d =>
    if d.digits % 10 = 0 && d.digits != 0 then normalise fuel ⟨d.digits / 10, d.exponent + 1⟩ else d

/-- Writes a positive decimal; a point or an exponent is always present. -/
def Layout.write (l : Layout) (d : Scaled) : String :=
  let d := d.normalise 20
  let ds := Nat.toDigits 10 d.digits
  let point := (ds.length : Int) + d.exponent
  if l.lowest ≤ point && point ≤ l.highest then
    if 0 ≤ d.exponent then String.ofList (ds ++ List.replicate d.exponent.toNat '0' ++ ['.', '0'])
    else if 0 < point then String.ofList (ds.take point.toNat ++ '.' :: ds.drop point.toNat)
    else String.ofList ('0' :: '.' :: List.replicate (-point).toNat '0' ++ ds)
  else
    let e := point - 1
    let mantissa := match ds with
      | [] => []
      | [c] => [c]
      | c :: r => c :: '.' :: r
    String.ofList mantissa ++ "e" ++ (if e < 0 then "-" else "+") ++ toString e.natAbs

/-- The text of a double. -/
def Layout.text (l : Layout) (f : Float) : String :=
  let sign := fun n => if n then "-" else ""
  match Parts.ofFloat f with
  | .zero n => sign n ++ "0.0"
  | .finite n m q p => sign n ++ l.write (shortest m q p)
  | .infinite n => sign n ++ "inf"
  | .nan => "NaN"

/-- Whether the double is a number and not infinite. -/
def isFinite (f : Float) : Bool :=
  match Parts.ofFloat f with
  | .infinite _ | .nan => false
  | _ => true

end ContractMigration.Decimal
