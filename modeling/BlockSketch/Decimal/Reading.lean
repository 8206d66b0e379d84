import BlockSketch.Decimal.Binary
import BlockSketch.Decimal.Natural

namespace BlockSketch.Decimal

/-- The double nearest to `coefficient * 10 ^ power`. A value of at least `10 ^ 310` is infinite and
one below `10 ^ (-330)` is zero, whatever the power. -/
def nearest (coefficient : Nat) (power : Int) : Float :=
  let size : Int := (digitText coefficient).length
  if coefficient = 0 then 0.0
  else if 310 < size + power then infinity
  else if size + power < -330 then 0.0
  else Float.ofScientific coefficient (decide (power < 0)) power.natAbs

/-- An exponent mark with its digits, or nothing at all. -/
def readExponent? : List Char → Option Int
  | [] => some 0
  | c :: r =>
    if c = 'e' ∨ c = 'E' then
      let (negative, digits) := match r with
        | '-' :: ds => (true, ds)
        | '+' :: ds => (false, ds)
        | ds => (false, ds)
      if digits.isEmpty ∨ !digits.all Char.isDigit then none
      else some (if negative then -(natOfDigits digits : Int) else natOfDigits digits)
    else none

/-- Digits with at most one point, at least one digit on either side of it, then an exponent. -/
def readUnsigned? (s : List Char) : Option Float :=
  let whole := s.takeWhile Char.isDigit
  let (places, rest) := match s.dropWhile Char.isDigit with
    | '.' :: r => (r.takeWhile Char.isDigit, r.dropWhile Char.isDigit)
    | r => ([], r)
  if whole.isEmpty ∧ places.isEmpty then none
  else (readExponent? rest).map fun e =>
    nearest (natOfDigits (whole ++ places)) (e - (places.length : Int))

/-- A magnitude: a decimal, or the word for infinity or for no number in any ASCII case. -/
def readMagnitude? (s : List Char) : Option Float :=
  let word := String.ofList (s.map Char.toLower)
  if word = "inf" ∨ word = "infinity" then some infinity
  else if word = "nan" then some notANumber
  else readUnsigned? s

/-- The double that a text stands for, an optional sign in front, and whether this is a minus. -/
def readSigned? (s : List Char) : Option (Float × Bool) :=
  match s with
  | '-' :: r => (readMagnitude? r).map fun x => (-x, true)
  | '+' :: r => (readMagnitude? r).map fun x => (x, false)
  | r => (readMagnitude? r).map fun x => (x, false)

def read? (s : List Char) : Option Float := (readSigned? s).map Prod.fst

end BlockSketch.Decimal
