import BlockSketch.Decimal.Reading

namespace BlockSketch.Toml

/-- Digits with single underscores between them. -/
def isGrouped (p : Char → Bool) : List Char → Bool
  | [] => false
  | [c] => p c
  | c :: '_' :: d :: r => p c && isGrouped p (d :: r)
  | c :: r => p c && isGrouped p r

def isHexDigit (c : Char) : Bool :=
  c.isDigit || ('a' ≤ c && c ≤ 'f') || ('A' ≤ c && c ≤ 'F')

def hexDigitValue (c : Char) : Nat :=
  if c.isDigit then c.toNat - '0'.toNat
  else if c.toNat < 'a'.toNat then c.toNat - 'A'.toNat + 10
  else c.toNat - 'a'.toNat + 10

/-- The number that digits of a base stand for, underscores apart. -/
def valueInBase (base : Nat) (s : List Char) : Nat :=
  (s.filter (· ≠ '_')).foldl (fun n c => base * n + hexDigitValue c) 0

def withoutSign : List Char → List Char
  | '+' :: r => r
  | '-' :: r => r
  | r => r

/-- A decimal number without a leading zero. -/
def isDecimal (s : List Char) : Bool :=
  match s with
  | ['0'] => true
  | '0' :: _ => false
  | _ => isGrouped Char.isDigit s

def isInteger (s : List Char) : Bool :=
  let based (base : Nat) (p : Char → Bool) (digits : List Char) : Bool :=
    isGrouped p digits && decide (valueInBase base digits < Nat.pow 2 63)
  match s with
  | '0' :: 'x' :: r => based 16 isHexDigit r
  | '0' :: 'o' :: r => based 8 (fun c => '0' ≤ c && c ≤ '7') r
  | '0' :: 'b' :: r => based 2 (fun c => c == '0' || c == '1') r
  | _ =>
    let digits := withoutSign s
    let bound := if s.head? = some '-' then Nat.pow 2 63 + 1 else Nat.pow 2 63
    isDecimal digits && decide (valueInBase 10 digits < bound)

def isExponent (s : List Char) : Bool := isGrouped Char.isDigit (withoutSign s)

/-- Whether a number has not grown over all doubles; downwards it may. -/
def isBounded (s : List Char) : Bool :=
  match Decimal.readSigned? (s.filter (· ≠ '_')) with
  | some (x, negative) => negative || !x.isInf
  | none => false

def isFloat (s : List Char) : Bool :=
  let magnitude := withoutSign s
  if magnitude = ['i', 'n', 'f'] ∨ magnitude = ['n', 'a', 'n'] then true
  else
    let inMantissa (c : Char) : Bool := c != 'e' && c != 'E'
    let mantissa := magnitude.takeWhile inMantissa
    let power := magnitude.dropWhile inMantissa
    let whole := mantissa.takeWhile (· ≠ '.')
    let places := mantissa.dropWhile (· ≠ '.')
    isDecimal whole && (places.isEmpty || isGrouped Char.isDigit places.tail) &&
      (power.isEmpty || isExponent power.tail) && !(places.isEmpty && power.isEmpty) &&
      isBounded s

/-- Two digits that stand for a number in a range. -/
def isTwoDigits (low high : Nat) (a b : Char) : Bool :=
  let n := Decimal.natOfDigits [a, b]
  a.isDigit && b.isDigit && decide (low ≤ n) && decide (n ≤ high)

def isLeapYear (year : Nat) : Bool := year % 4 == 0 && (year % 100 != 0 || year % 400 == 0)

/-- The number of days of a month, which is counted from one. -/
def daysIn (year month : Nat) : Nat :=
  if month = 2 then
    if isLeapYear year then 29 else 28
  else if [4, 6, 9, 11].contains month then 30
  else 31

def isDate (s : List Char) : Bool :=
  match s with
  | [a, b, c, d, '-', e, f, '-', g, h] =>
    [a, b, c, d].all Char.isDigit && isTwoDigits 1 12 e f &&
      isTwoDigits 1 (daysIn (Decimal.natOfDigits [a, b, c, d]) (Decimal.natOfDigits [e, f])) g h
  | _ => false

def isOffset (s : List Char) : Bool :=
  match s with
  | [] => true
  | ['Z'] => true
  | ['z'] => true
  | [sign, a, b, ':', c, d] =>
    (sign == '+' || sign == '-') && isTwoDigits 0 23 a b && isTwoDigits 0 59 c d
  | _ => false

/-- A time of day, and what comes after it. -/
def timeRest? (s : List Char) : Option (List Char) :=
  match s with
  | a :: b :: ':' :: c :: d :: ':' :: e :: f :: r =>
    if isTwoDigits 0 23 a b && isTwoDigits 0 59 c d && isTwoDigits 0 60 e f then
      match r with
      | '.' :: r' =>
        if (r'.takeWhile Char.isDigit).isEmpty then none else some (r'.dropWhile Char.isDigit)
      | _ => some r
    else none
  | _ => none

def isMoment (s : List Char) : Bool :=
  if isDate s || timeRest? s == some [] then true
  else
    let separator := s.drop 10 |>.head?
    isDate (s.take 10) && (separator == some 'T' || separator == some 't' || separator == some ' ') &&
      match timeRest? (s.drop 11) with
      | some r => isOffset r
      | none => false

end BlockSketch.Toml
