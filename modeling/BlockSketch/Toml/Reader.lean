import BlockSketch.Toml.Literal
import BlockSketch.Toml.Value

namespace BlockSketch.Toml

/-- Reads the front of a text and leaves the rest. -/
abbrev Reader := StateT (List Char) Option

def isSpace (c : Char) : Bool := c == ' ' || c == '\t'

/-- A character that may stand in a comment or between quotes. -/
def isPlain (c : Char) : Bool := c == '\t' || (0x20 ≤ c.toNat && c.toNat ≠ 0x7F)

def spaces : Reader Unit := modify (·.dropWhile isSpace)

def peek? : Reader (Option Char) := return (← get).head?

def advance : Reader Unit := modify List.tail

def expect (c : Char) : Reader Unit := do
  if (← peek?) = some c then advance else failure

/-- The rest after a line ending. -/
def afterEnding? : List Char → Option (List Char)
  | '\n' :: r => some r
  | '\r' :: '\n' :: r => some r
  | _ => none

def comment : Reader Unit := do
  if (← peek?) = some '#' then modify (·.dropWhile isPlain)

/-- Blanks and a comment up to the end of the line or of the text. -/
def endOfLine : Reader Unit := do
  spaces
  comment
  let s ← get
  if s.isEmpty then return
  match afterEnding? s with
  | some r => set r
  | none => failure

/-- Blanks, comments and line endings. -/
def gap : Nat → Reader Unit
  | 0 => failure
  | n + 1 => do
    spaces
    comment
    match afterEnding? (← get) with
    | some r =>
      set r
      gap n
    | none => return

def escaped? (c : Char) : Option Char :=
  match c with
  | 'b' => some (Char.ofNat 8)
  | 't' => some '\t'
  | 'n' => some '\n'
  | 'f' => some (Char.ofNat 12)
  | 'r' => some '\r'
  | '"' => some '"'
  | '\\' => some '\\'
  | _ => none

/-- The character with a number written in hexadecimal digits. -/
def scalar? (digits : List Char) : Option Char :=
  let n := valueInBase 16 digits
  if digits.all isHexDigit && (n < 0xD800 || (0xE000 ≤ n && n ≤ 0x10FFFF)) then some (Char.ofNat n)
  else none

/-- The rest of a text in double quotes on one line. -/
def basicFrom : List Char → List Char → Option (List Char × List Char)
  | '"' :: r, acc => some (acc.reverse, r)
  | '\\' :: 'u' :: a :: b :: c :: d :: r, acc =>
    (scalar? [a, b, c, d]).bind fun x => basicFrom r (x :: acc)
  | '\\' :: 'U' :: a :: b :: c :: d :: e :: f :: g :: h :: r, acc =>
    (scalar? [a, b, c, d, e, f, g, h]).bind fun x => basicFrom r (x :: acc)
  | '\\' :: c :: r, acc => (escaped? c).bind fun x => basicFrom r (x :: acc)
  | c :: r, acc => if isPlain c && c != '\\' then basicFrom r (c :: acc) else none
  | [], _ => none

/-- Whether only blanks stand before the end of the line. -/
def startsJoin (s : List Char) : Bool := (afterEnding? (s.dropWhile isSpace)).isSome

/-- The rest of a text in triple double quotes. While `joining`, after a backslash at the end of a
line, blanks and line endings are passed over. -/
def longBasicFrom : Bool → List Char → List Char → Option (List Char × List Char)
  | _, '"' :: '"' :: '"' :: '"' :: '"' :: r, acc => some (('"' :: '"' :: acc).reverse, r)
  | _, '"' :: '"' :: '"' :: '"' :: r, acc => some (('"' :: acc).reverse, r)
  | _, '"' :: '"' :: '"' :: r, acc => some (acc.reverse, r)
  | joining, '\r' :: '\n' :: r, acc =>
    if joining then longBasicFrom joining r acc else longBasicFrom false r ('\n' :: acc)
  | _, '\\' :: 'u' :: a :: b :: c :: d :: r, acc =>
    (scalar? [a, b, c, d]).bind fun x => longBasicFrom false r (x :: acc)
  | _, '\\' :: 'U' :: a :: b :: c :: d :: e :: f :: g :: h :: r, acc =>
    (scalar? [a, b, c, d, e, f, g, h]).bind fun x => longBasicFrom false r (x :: acc)
  | _, '\\' :: c :: r, acc =>
    if startsJoin (c :: r) then longBasicFrom true (c :: r) acc
    else (escaped? c).bind fun x => longBasicFrom false r (x :: acc)
  | joining, c :: r, acc =>
    if joining && (isSpace c || c == '\n') then longBasicFrom true r acc
    else if c == '\n' || (isPlain c && c != '\\') then longBasicFrom false r (c :: acc)
    else none
  | _, [], _ => none

/-- The rest of a text in single quotes on one line. -/
def literalFrom : List Char → List Char → Option (List Char × List Char)
  | '\'' :: r, acc => some (acc.reverse, r)
  | c :: r, acc => if isPlain c then literalFrom r (c :: acc) else none
  | [], _ => none

/-- The rest of a text in triple single quotes. -/
def longLiteralFrom : List Char → List Char → Option (List Char × List Char)
  | '\'' :: '\'' :: '\'' :: '\'' :: '\'' :: r, acc => some (('\'' :: '\'' :: acc).reverse, r)
  | '\'' :: '\'' :: '\'' :: '\'' :: r, acc => some (('\'' :: acc).reverse, r)
  | '\'' :: '\'' :: '\'' :: r, acc => some (acc.reverse, r)
  | '\r' :: '\n' :: r, acc => longLiteralFrom r ('\n' :: acc)
  | c :: r, acc => if c == '\n' || isPlain c then longLiteralFrom r (c :: acc) else none
  | [], _ => none

/-- A line ending right after the opening quotes is no part of the text. -/
def afterFirstEnding (s : List Char) : List Char := (afterEnding? s).getD s

def finish (result : Option (List Char × List Char)) : Reader String := do
  match result with
  | some (s, r) =>
    set r
    return String.ofList s
  | none => failure

def quoted : Reader String := do
  match ← get with
  | '"' :: '"' :: '"' :: r => finish (longBasicFrom false (afterFirstEnding r) [])
  | '\'' :: '\'' :: '\'' :: r => finish (longLiteralFrom (afterFirstEnding r) [])
  | '"' :: r => finish (basicFrom r [])
  | '\'' :: r => finish (literalFrom r [])
  | _ => failure

def isKeyChar (c : Char) : Bool := c.isAlphanum || c == '_' || c == '-'

/-- One part of a key: bare, or in quotes on one line. -/
def keyPart : Reader String := do
  match ← get with
  | '"' :: r => finish (basicFrom r [])
  | '\'' :: r => finish (literalFrom r [])
  | s =>
    let name := s.takeWhile isKeyChar
    if name.isEmpty then failure
    set (s.dropWhile isKeyChar)
    return String.ofList name

/-- How deep arrays and tables in braces may be nested, and how many parts a key may have. -/
def depthLimit : Nat := 79

/-- The parts of a key, with dots between them. -/
def keyParts : Nat → Reader (List String)
  | 0 => failure
  | n + 1 => do
    spaces
    let part ← keyPart
    spaces
    if (← peek?) = some '.' then
      advance
      return part :: (← keyParts n)
    else return [part]

def key (bound : Nat) : Reader (List String) := do
  let parts ← keyParts bound
  guard (parts.length ≤ depthLimit)
  return parts

def isLiteralChar (c : Char) : Bool :=
  c.isAlphanum || c == '+' || c == '-' || c == '_' || c == '.' || c == ':'

/-- A word without quotes: a truth value, a number or a point in time. A date may be followed by a
time of day after a space. -/
def bare : Reader Value := do
  let s ← get
  let first := s.takeWhile isLiteralChar
  let rest := s.dropWhile isLiteralChar
  let (word, rest) := match rest with
    | ' ' :: r =>
      let time := r.takeWhile isLiteralChar
      if isDate first && (time.head?.map Char.isDigit).getD false then
        (first ++ ' ' :: time, r.dropWhile isLiteralChar)
      else (first, rest)
    | _ => (first, rest)
  set rest
  let text := String.ofList word
  if text = "true" then return .flag true
  else if text = "false" then return .flag false
  else if isInteger word || isFloat word || isMoment word then return .literal text
  else failure

mutual

def value : Nat → Nat → Reader Value
  | 0, _ => failure
  | n + 1, room => do
    match ← peek?, room with
    | some '"', _ => return .text (← quoted)
    | some '\'', _ => return .text (← quoted)
    | some '[', 0 => failure
    | some '[', room + 1 =>
      advance
      return .list (← items n room)
    | some '\x7b', 0 => failure
    | some '\x7b', room + 1 =>
      advance
      spaces
      if (← peek?) = some '\x7d' then
        advance
        return .table .inline []
      else return .table .inline (← members n room [])
    | _, _ => bare

/-- The items of an array up to the closing bracket; a comma may stand after the last. -/
def items : Nat → Nat → Reader (List Value)
  | 0, _ => failure
  | n + 1, room => do
    gap (n + 1)
    if (← peek?) = some ']' then
      advance
      return []
    else
      let v ← value n room
      gap (n + 1)
      match ← peek? with
      | some ',' =>
        advance
        return v :: (← items n room)
      | some ']' =>
        advance
        return [v]
      | _ => failure

/-- The members of a table in braces up to the closing one. -/
def members : Nat → Nat → Entries → Reader Entries
  | 0, _, _ => failure
  | n + 1, room, entries => do
    let k ← key (n + 1)
    expect '='
    spaces
    let v ← value n room
    spaces
    match define v k entries with
    | none => failure
    | some entries' =>
      match ← peek? with
      | some ',' =>
        advance
        members n room entries'
      | some '\x7d' =>
        advance
        return entries'
      | _ => failure

end

structure Draft where
  root : Entries := []
  header : List String := []

/-- The header that opens a table: all keys but the last lead to it. -/
def openHeader (openLast : String → Entries → Option Entries) (k : List String) (d : Draft) :
    Option Draft :=
  match k.getLast? with
  | none => none
  | some last =>
    (atHeader (openLast last) k.dropLast d.root).map fun root => ⟨root, k⟩

def lines : Nat → Draft → Reader Draft
  | 0, _ => failure
  | n + 1, d => do
    gap (n + 1)
    match ← get with
    | [] => return d
    | '[' :: '[' :: r =>
      set r
      let k ← key (n + 1)
      expect ']'
      expect ']'
      endOfLine
      match openHeader openItem k d with
      | some d' => lines n d'
      | none => failure
    | '[' :: r =>
      set r
      let k ← key (n + 1)
      expect ']'
      endOfLine
      match openHeader openTable k d with
      | some d' => lines n d'
      | none => failure
    | _ =>
      let k ← key (n + 1)
      expect '='
      spaces
      let v ← value n depthLimit
      endOfLine
      match atHeader (define v k) d.header d.root with
      | some root => lines n { d with root := root }
      | none => failure

/-- The table of a text; a mark of byte order in front is no part of it. -/
def read? (source : String) : Option Entries :=
  let s := match source.toList with
    | '\uFEFF' :: r => r
    | s => s
  ((lines (2 * s.length + 2) {}).run s).map fun r => r.1.root

end BlockSketch.Toml
