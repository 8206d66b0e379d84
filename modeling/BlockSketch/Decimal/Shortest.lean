import BlockSketch.Decimal.Binary
import BlockSketch.Decimal.Natural

namespace BlockSketch.Decimal

/-- The number `coefficient * 10 ^ power`. -/
structure Digits where
  coefficient : Nat
  power : Int
  deriving DecidableEq, Repr

/-- Which of two equally near points is taken. -/
inductive Tie where
  | up
  | even
  deriving DecidableEq, Repr

/-- The reals that round to a double, in quarters of its last place: `low` and `high` bound them,
and belong to them when `closed`. -/
structure Rounding where
  low : Nat
  mid : Nat
  high : Nat
  closed : Bool
  deriving DecidableEq, Repr

/-- The neighbour below a power of two is half as far as the one above. -/
def Rounding.of (mantissa : Nat) (exponent : Int) : Rounding where
  low :=
    if mantissa = Nat.pow 2 52 ∧ leastExponent < exponent then 4 * mantissa - 1 else 4 * mantissa - 2
  mid := 4 * mantissa
  high := 4 * mantissa + 2
  closed := mantissa % 2 == 0

/-- Quarters of the last place are compared with multiples of `10 ^ power` after multiplying the
former by the first number and the latter by the second. -/
def scales (exponent power : Int) : Nat × Nat :=
  (Nat.pow 2 (exponent - 2).toNat * Nat.pow 10 (-power).toNat,
    Nat.pow 2 (2 - exponent).toNat * Nat.pow 10 power.toNat)

/-- The multiple of `10 ^ power` nearest to the double, if one rounds to it. -/
def Rounding.onGrid (tie : Tie) (r : Rounding) (exponent power : Int) : Option Nat :=
  let (a, b) := scales exponent power
  let d := r.mid * a / b
  let below := if r.closed then r.low * a ≤ d * b else r.low * a < d * b
  let above := if r.closed then (d + 1) * b ≤ r.high * a else (d + 1) * b < r.high * a
  if below then
    if above then
      match compare (2 * (r.mid * a)) ((2 * d + 1) * b) with
      | .lt => some d
      | .gt => some (d + 1)
      | .eq =>
        match tie with
        | .up => some (d + 1)
        | .even => if d % 2 = 0 then some d else some (d + 1)
    else some d
  else if above then some (d + 1) else none

/-- A power of ten above every double with this mantissa and exponent. -/
def topPower (mantissa : Nat) (exponent : Int) : Int :=
  Int.fdiv (((mantissa.log2 : Int) + exponent + 1) * 30103) 100000 + 1

/-- Tries the grids `10 ^ power`, `10 ^ (power - 1)`, … -/
def searchGrids (tie : Tie) (r : Rounding) (exponent : Int) : Nat → Int → Digits
  | 0, power =>
    let (a, b) := scales exponent power
    ⟨r.mid * a / b, power⟩
  | n + 1, power =>
    match r.onGrid tie exponent power with
    | some d => ⟨d, power⟩
    | none => searchGrids tie r exponent n (power - 1)

/-- The shortest decimal for the double `mantissa * 2 ^ exponent`, `mantissa` being positive. -/
def shortest (tie : Tie) (mantissa : Nat) (exponent : Int) : Digits :=
  searchGrids tie (Rounding.of mantissa exponent) exponent 24 (topPower mantissa exponent)

/-- Writes a decimal with a point where it is needed and never an exponent. -/
def Digits.positional (d : Digits) : List Char :=
  let text := digitText d.coefficient
  if 0 ≤ d.power then text ++ List.replicate d.power.toNat '0'
  else
    let places := (-d.power).toNat
    if places < text.length then
      text.take (text.length - places) ++ '.' :: text.drop (text.length - places)
    else '0' :: '.' :: (List.replicate (places - text.length) '0' ++ text)

end BlockSketch.Decimal
