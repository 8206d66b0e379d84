import BlockSketch.Decimal.Natural
import BlockSketch.Json.Cursor

namespace BlockSketch.Json

inductive Numeral where
  | whole (n : Int)
  | real (x : Float)

/-- Appends digits to a number while the result fits in 64 bits, and answers the digits left. -/
def absorb : Nat → List Char → Nat × List Char
  | n, [] => (n, [])
  | n, c :: r =>
    let n' := 10 * n + Decimal.digitValue c
    if n' < Nat.pow 2 64 then absorb n' r else (n, c :: r)

def powerOfTen (n : Nat) : Float := Float.ofScientific 1 false n

/-- Divides by `10 ^ n`, in steps of `10 ^ 308`; three of them leave nothing of a 64-bit number. -/
def scaleDown : Nat → Float → Nat → Float
  | 0, x, _ => x
  | steps + 1, x, n =>
    if n ≤ 308 then x / powerOfTen n
    else if x == 0.0 then x
    else scaleDown steps (x / powerOfTen 308) (n - 308)

/-- The number `significand * 10 ^ power`, unless it overflows. -/
def scaled? (significand : Nat) (power : Int) : Option Float :=
  let x := significand.toUInt64.toFloat
  if power < 0 then some (scaleDown 4 x power.natAbs)
  else if power ≤ 308 then
    let y := x * powerOfTen power.natAbs
    if y.isInf then none else some y
  else if x == 0.0 then some x else none

def signed (negative : Bool) (x : Float) : Float := if negative then -x else x

def realOf (negative : Bool) (significand : Nat) (power : Int) : Reader Numeral :=
  match scaled? significand power with
  | some x => return .real (signed negative x)
  | none => failAfter 0 .numberOutOfRange

/-- The largest exponent that is read. -/
def exponentLimit : Nat := 2147483647

/-- Appends exponent digits while the limit holds, and answers the digits left. -/
def absorbExponent : Nat → List Char → Nat × List Char
  | n, [] => (n, [])
  | n, c :: r =>
    let n' := 10 * n + Decimal.digitValue c
    if n' ≤ exponentLimit then absorbExponent n' r else (n, c :: r)

/-- The exponent mark and its digits. An exponent past the limit overflows at the digit that passes
it, unless the number is zero or the exponent negative. -/
def exponent (negative : Bool) (significand : Nat) (power : Int) : Reader Numeral := do
  advance
  let down ← do
    match ← ahead? with
    | some '+' => advance; pure false
    | some '-' => advance; pure true
    | _ => pure false
  match ← ahead? with
  | none => failAfter 0 .endOfValue
  | some c =>
    if !c.isDigit then failAfter 1 .invalidNumber
    let start ← get
    let ds ← digits
    match absorbExponent 0 ds with
    | (e, []) => realOf negative significand (if down then power - e else power + e)
    | (_, left) =>
      if significand ≠ 0 && !down then
        throw (.malformed .numberOutOfRange (start.offset + (ds.length - left.length) + 1))
      else return .real (signed negative 0.0)

/-- The point and the digits after it. -/
def fraction (negative : Bool) (significand : Nat) (dropped : Nat) : Reader Numeral := do
  advance
  let ds ← digits
  if ds.isEmpty then
    match ← ahead? with
    | none => failNext .endOfValue
    | some _ => failNext .invalidNumber
  else
    let (n, left) := absorb significand ds
    let power : Int := (dropped : Int) - ((ds.length - left.length : Nat) : Int)
    match ← ahead? with
    | some 'e' => exponent negative n power
    | some 'E' => exponent negative n power
    | _ => realOf negative n power

/-- An integer literal that fits in 64 bits; minus zero is no integer. -/
def wholeOf (negative : Bool) (n : Nat) : Numeral :=
  if negative then
    if n = 0 then .real (-0.0)
    else if n ≤ Nat.pow 2 63 then .whole (-(n : Int))
    else .real (-n.toUInt64.toFloat)
  else .whole n

/-- What follows the digits before the point. -/
def afterInteger (negative : Bool) (significand dropped : Nat) : Reader Numeral := do
  match ← ahead? with
  | some '.' => fraction negative significand dropped
  | some 'e' => exponent negative significand dropped
  | some 'E' => exponent negative significand dropped
  | _ =>
    if dropped = 0 then return wholeOf negative significand
    else realOf negative significand dropped

def numeral (negative : Bool) : Reader Numeral := do
  match ← ahead? with
  | none => failAfter 0 .endOfValue
  | some '0' =>
    advance
    match ← ahead? with
    | some c => if c.isDigit then failNext .invalidNumber else afterInteger negative 0 0
    | none => afterInteger negative 0 0
  | some c =>
    if c.isDigit then
      let ds ← digits
      let (n, left) := absorb 0 ds
      afterInteger negative n left.length
    else failAfter 1 .invalidNumber

def Numeral.toFloat : Numeral → Float
  | .whole n => if n < 0 then -n.natAbs.toUInt64.toFloat else n.natAbs.toUInt64.toFloat
  | .real x => x

/-- The exponent of a number that is passed over. -/
def skipExponent : Reader Unit := do
  advance
  match ← ahead? with
  | some '+' => advance
  | some '-' => advance
  | _ => pure ()
  match ← ahead? with
  | none => failAfter 0 .invalidNumber
  | some c => if !c.isDigit then failAfter 1 .invalidNumber
  let _ ← digits

def skipAfterInteger : Reader Unit := do
  match ← ahead? with
  | some '.' =>
    advance
    let ds ← digits
    if ds.isEmpty then failNext .invalidNumber
    match ← ahead? with
    | some 'e' => skipExponent
    | some 'E' => skipExponent
    | _ => pure ()
  | some 'e' => skipExponent
  | some 'E' => skipExponent
  | _ => pure ()

/-- Passes over a number whose sign has been read; its size does not matter. -/
def skipNumeral : Reader Unit := do
  match ← ahead? with
  | none => failAfter 0 .invalidNumber
  | some '0' =>
    advance
    match ← ahead? with
    | some c => if c.isDigit then failNext .invalidNumber
    | none => pure ()
    skipAfterInteger
  | some c =>
    if c.isDigit then
      let _ ← digits
      skipAfterInteger
    else failAfter 1 .invalidNumber

end BlockSketch.Json
