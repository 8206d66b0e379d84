import BlockSketch.Decimal.Shortest

namespace BlockSketch.Json

inductive Value where
  | null
  | flag (b : Bool)
  /-- An integer literal that fits in 64 bits. -/
  | whole (n : Int)
  | real (x : Float)
  | text (s : String)
  | list (items : List Value)
  /-- Members in the order in which they are written. -/
  | object (members : List (String × Value))

def quoteChar (c : Char) : List Char :=
  if c = '"' then ['\\', '"']
  else if c = '\\' then ['\\', '\\']
  else if c = '\n' then ['\\', 'n']
  else if c = '\r' then ['\\', 'r']
  else if c = '\t' then ['\\', 't']
  else if c.toNat = 8 then ['\\', 'b']
  else if c.toNat = 12 then ['\\', 'f']
  else if c.toNat < 32 then
    ['\\', 'u', '0', '0', Nat.digitChar (c.toNat / 16), Nat.digitChar (c.toNat % 16)]
  else [c]

def quote (s : String) : String := String.ofList ('"' :: (s.toList.flatMap quoteChar ++ ['"']))

/-- Positional with at least one place from `10 ^ (-5)` up to below `10 ^ 16`, otherwise one digit, a
point if more follow, and a signed exponent. -/
def digitsText (d : Decimal.Digits) : List Char :=
  let text := Decimal.digitText d.coefficient
  let point : Int := text.length + d.power
  if 0 ≤ d.power ∧ point ≤ 16 then d.positional ++ ['.', '0']
  else if -5 < point ∧ point ≤ 16 then d.positional
  else
    let exponent := point - 1
    let mark := 'e' :: (if exponent < 0 then '-' else '+') :: Decimal.digitText exponent.natAbs
    match text with
    | [] => mark
    | [c] => c :: mark
    | c :: r => c :: '.' :: (r ++ mark)

/-- The text of a number that is not finite is never needed: no literal stands for one. -/
def realText (x : Float) : String :=
  match Decimal.Binary.ofFloat x with
  | .nan => "null"
  | .infinite _ => "null"
  | .finite negative mantissa exponent =>
    let text := if mantissa = 0 then ['0', '.', '0']
      else digitsText (Decimal.shortest .even mantissa exponent)
    String.ofList (if negative then '-' :: text else text)

def wholeText (n : Int) : String :=
  String.ofList (if n < 0 then '-' :: Decimal.digitText n.natAbs else Decimal.digitText n.natAbs)

def flagText (b : Bool) : String := if b then "true" else "false"

mutual

def Value.compact : Value → String
  | .null => "null"
  | .flag b => flagText b
  | .whole n => wholeText n
  | .real x => realText x
  | .text s => quote s
  | .list items => "[" ++ String.intercalate "," (compactItems items) ++ "]"
  | .object members => "\x7b" ++ String.intercalate "," (compactMembers members) ++ "\x7d"

def compactItems : List Value → List String
  | [] => []
  | v :: r => v.compact :: compactItems r

def compactMembers : List (String × Value) → List String
  | [] => []
  | (k, v) :: r => (quote k ++ ":" ++ v.compact) :: compactMembers r

end

/-- Brackets around indented lines, or nothing between them. -/
def bracketed (indent opening closing : String) (lines : List String) : String :=
  match lines with
  | [] => opening ++ closing
  | _ =>
    let inner := "\n" ++ indent ++ "  "
    opening ++ inner ++ String.intercalate ("," ++ inner) lines ++ "\n" ++ indent ++ closing

mutual

/-- The value with every item and member on a line of its own, two spaces a level. -/
def Value.prettyAt (indent : String) : Value → String
  | .null => "null"
  | .flag b => flagText b
  | .whole n => wholeText n
  | .real x => realText x
  | .text s => quote s
  | .list items => bracketed indent "[" "]" (prettyItems (indent ++ "  ") items)
  | .object members => bracketed indent "\x7b" "\x7d" (prettyMembers (indent ++ "  ") members)

def prettyItems (indent : String) : List Value → List String
  | [] => []
  | v :: r => v.prettyAt indent :: prettyItems indent r

def prettyMembers (indent : String) : List (String × Value) → List String
  | [] => []
  | (k, v) :: r => (quote k ++ ": " ++ v.prettyAt indent) :: prettyMembers indent r

end

def Value.pretty (v : Value) : String := v.prettyAt ""

end BlockSketch.Json
