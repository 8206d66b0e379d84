import BlockSketch.Decimal.Shortest

namespace BlockSketch.Decimal

/-- The whole number that a magnitude is, if it is one. -/
def whole? (mantissa : Nat) (exponent : Int) : Option Nat :=
  let divisor := Nat.pow 2 (-exponent).toNat
  if mantissa % divisor = 0 then some (mantissa / divisor * Nat.pow 2 exponent.toNat) else none

/-- The digits of a magnitude: those of a whole number below `10 ^ 15`, else the fewest that read back. Of
two equally near decimals the greater is written. -/
def plainDigits (mantissa : Nat) (exponent : Int) : List Char :=
  match (whole? mantissa exponent).filter (· < Nat.pow 10 15) with
  | some n => digitText n
  | none => (shortest .up mantissa exponent).positional

/-- A number with a point only where it is needed and never an exponent. Zero has no sign. -/
def plainText (x : Float) : String :=
  match Binary.ofFloat x with
  | .nan => "NaN"
  | .infinite negative => if negative then "-inf" else "inf"
  | .finite negative mantissa exponent =>
    let text := String.ofList (plainDigits mantissa exponent)
    if negative ∧ mantissa ≠ 0 then "-" ++ text else text

end BlockSketch.Decimal
