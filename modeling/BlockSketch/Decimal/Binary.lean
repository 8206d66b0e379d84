namespace BlockSketch.Decimal

inductive Binary where
  | nan
  | infinite (negative : Bool)
  /-- The magnitude is `mantissa * 2 ^ exponent`. -/
  | finite (negative : Bool) (mantissa : Nat) (exponent : Int)
  deriving DecidableEq, Repr

/-- The least exponent of a double, shared by all subnormal numbers. -/
def leastExponent : Int := -1074

/-- Reads the fields of a double: one bit of sign, eleven of scale, fifty-two of fraction. -/
def Binary.ofFloat (x : Float) : Binary :=
  let bits := x.toBits.toNat
  let fraction : Nat := bits % Nat.pow 2 52
  let scale : Nat := bits / Nat.pow 2 52 % Nat.pow 2 11
  let negative := decide (Nat.pow 2 63 ≤ bits)
  if scale = 2047 then
    if fraction = 0 then .infinite negative else .nan
  else if scale = 0 then .finite negative fraction leastExponent
  else .finite negative (Nat.pow 2 52 + fraction) ((scale : Int) - 1075)

def infinity : Float := Float.ofBits 0x7FF0000000000000

def notANumber : Float := Float.ofBits 0x7FF8000000000000

end BlockSketch.Decimal
