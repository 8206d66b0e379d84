import BlockSketch.Json.Numeral
import BlockSketch.Json.Quoted
import BlockSketch.Json.Value

namespace BlockSketch.Json

def outOfSteps {α : Type} : Reader α := failAfter 0 .endOfValue

def Numeral.found : Numeral → Found
  | .whole n => .whole n
  | .real x => .real x

/-- What stands in the text. A scalar is read, and may turn out to be no JSON. -/
def found : Reader Found := do
  match ← start with
  | 'n' =>
    advance
    word ['u', 'l', 'l']
    return .null
  | 't' =>
    advance
    word ['r', 'u', 'e']
    return .flag true
  | 'f' =>
    advance
    word ['a', 'l', 's', 'e']
    return .flag false
  | '-' =>
    advance
    return (← numeral true).found
  | '"' => return .text (← quoted)
  | '[' => return .list
  | '\x7b' => return .object
  | c => if c.isDigit then return (← numeral false).found else failNext .expectedValue

def wrongKind {α : Type} (expected : Kind) : Reader α := do
  mistyped (.kind (← found) expected)

def text : Reader String := do
  match ← start with
  | '"' => quoted
  | _ => wrongKind .text

def flag : Reader Bool := do
  match ← start with
  | 't' =>
    advance
    word ['r', 'u', 'e']
    return true
  | 'f' =>
    advance
    word ['a', 'l', 's', 'e']
    return false
  | _ => wrongKind .flag

def number (expected : Kind) : Reader Numeral := do
  let c ← start
  if c = '-' then
    advance
    numeral true
  else if c.isDigit then numeral false
  else wrongKind expected

def real : Reader Float := return (← number .real).toFloat

/-- An integer literal from zero up to the greatest of 64 bits. -/
def count : Reader Nat := do
  match ← number .count with
  | .whole n => if n < 0 then mistyped (.outOfRange (.whole n) .count) else return n.toNat
  | .real x => mistyped (.kind (.real x) .count)

def null : Reader Unit := do
  match ← start with
  | 'n' =>
    advance
    word ['u', 'l', 'l']
  | _ => wrongKind .null

/-- The word null, or a value. -/
def optional {α : Type} (value : Reader α) : Reader (Option α) := do
  match ← peek? with
  | some 'n' =>
    advance
    word ['u', 'l', 'l']
    return none
  | _ => return some (← value)

/-- Whether another item follows in a list. -/
def hasItem (first : Bool) : Reader Bool := do
  match ← peek? with
  | none => failNext .endOfList
  | some ']' => return false
  | some c =>
    if first then return true
    else if c = ',' then
      advance
      match ← peek? with
      | none => failNext .endOfValue
      | some ']' => failNext .trailingComma
      | some _ => return true
    else failNext .expectedCommaOrBracket

/-- Whether another member follows in an object; its key is next. -/
def hasMember (first : Bool) : Reader Bool := do
  match ← peek? with
  | none => failNext .endOfObject
  | some '\x7d' => return false
  | some c =>
    if first then
      if c = '"' then return true else failNext .keyNotText
    else if c = ',' then
      advance
      match ← peek? with
      | none => failNext .endOfValue
      | some '"' => return true
      | some '\x7d' => failNext .trailingComma
      | some _ => failNext .keyNotText
    else failNext .expectedCommaOrBrace

def colon : Reader Unit := do
  match ← peek? with
  | none => failNext .endOfObject
  | some ':' => advance
  | some _ => failNext .expectedColon

/-- The items up to the closing bracket. -/
def items {α : Type} (item : Reader α) : Nat → Bool → Reader (List α)
  | 0, _ => outOfSteps
  | n + 1, first => do
    if ← hasItem first then
      let x ← item
      let xs ← items item n false
      return x :: xs
    else
      advance
      return []

def list {α : Type} (bound : Nat) (item : Reader α) : Reader (List α) := do
  match ← start with
  | '[' =>
    advance
    items item bound true
  | _ => wrongKind .list

/-- The members up to the closing brace, repeated keys included. -/
def members {α : Type} (value : Reader α) : Nat → Bool → Reader (List (String × α))
  | 0, _ => outOfSteps
  | n + 1, first => do
    if ← hasMember first then
      let key ← quoted
      colon
      let x ← value
      let xs ← members value n false
      return (key, x) :: xs
    else
      advance
      return []

def object {α : Type} (bound : Nat) (value : Reader α) : Reader (List (String × α)) := do
  match ← start with
  | '\x7b' =>
    advance
    members value bound true
  | _ => wrongKind .object

mutual

/-- Passes over a value of any kind. -/
def skip : Nat → Reader Unit
  | 0 => outOfSteps
  | n + 1 => do
    match ← start with
    | 'n' =>
      advance
      word ['u', 'l', 'l']
    | 't' =>
      advance
      word ['r', 'u', 'e']
    | 'f' =>
      advance
      word ['a', 'l', 's', 'e']
    | '-' =>
      advance
      skipNumeral
    | '"' => skipQuoted
    | '[' =>
      advance
      match ← peek? with
      | none => failNext .endOfList
      | some ']' => advance
      | some _ => skipItems n
    | '\x7b' =>
      advance
      match ← peek? with
      | none => failNext .endOfObject
      | some '\x7d' => advance
      | some _ => skipMembers n
    | c => if c.isDigit then skipNumeral else failNext .expectedValue

def skipItems : Nat → Reader Unit
  | 0 => outOfSteps
  | n + 1 => do
    skip n
    match ← peek? with
    | none => failNext .endOfList
    | some ',' =>
      advance
      skipItems n
    | some ']' => advance
    | some _ => failNext .expectedCommaOrBracket

def skipMembers : Nat → Reader Unit
  | 0 => outOfSteps
  | n + 1 => do
    match ← peek? with
    | none => failNext .endOfObject
    | some '"' => skipQuoted
    | some _ => failNext .keyNotText
    colon
    skip n
    match ← peek? with
    | none => failNext .endOfObject
    | some ',' =>
      advance
      skipMembers n
    | some '\x7d' => advance
    | some _ => failNext .expectedCommaOrBrace

end

/-- Writes a member in front of the first greater key; an equal key is replaced. -/
def putSorted (key : String) (v : Value) : List (String × Value) → List (String × Value)
  | [] => [(key, v)]
  | e :: r =>
    if e.1 = key then (key, v) :: r
    else if key < e.1 then (key, v) :: e :: r
    else e :: putSorted key v r

/-- The members by key; of a repeated key the last value. -/
def sortMembers (ms : List (String × Value)) : List (String × Value) :=
  ms.foldl (fun l e => putSorted e.1 e.2 l) []

def value : Nat → Reader Value
  | 0 => outOfSteps
  | n + 1 => do
    match ← start with
    | 'n' =>
      advance
      word ['u', 'l', 'l']
      return .null
    | 't' =>
      advance
      word ['r', 'u', 'e']
      return .flag true
    | 'f' =>
      advance
      word ['a', 'l', 's', 'e']
      return .flag false
    | '"' => return .text (← quoted)
    | '[' =>
      advance
      return .list (← items (value n) (n + 1) true)
    | '\x7b' =>
      advance
      return .object (sortMembers (← members (value n) (n + 1) true))
    | c =>
      if c = '-' ∨ c.isDigit then
        match ← number .real with
        | .whole k => return .whole k
        | .real x => return .real x
      else failNext .expectedValue

/-- A member of a record: its name, and a reader that answers how the member changes the record. -/
structure Member (σ : Type) where
  name : String
  read : Reader (σ → σ)

def member {σ α : Type} (name : String) (reader : Reader α) (store : α → σ → σ) : Member σ :=
  ⟨name, store <$> reader⟩

/-- A record: its members in order of declaration, and what they make together. -/
structure Form (σ α : Type) where
  name : String
  members : List (Member σ)
  blank : σ
  /-- The finished record, or the name of a member that it must have. -/
  finish : σ → Except String α

/-- A record whose members may all be absent. -/
def Form.lenient {σ : Type} (name : String) (members : List (Member σ)) (blank : σ) : Form σ σ :=
  ⟨name, members, blank, .ok⟩

/-- Finishes a record that is written as an object. -/
def Form.close {σ α : Type} (form : Form σ α) (record : σ) : Reader α :=
  match form.finish record with
  | .ok x => return x
  | .error name => mistyped (.missing name)

/-- Finishes a record that is written as a list. -/
def Form.closeList {σ α : Type} (form : Form σ α) (record : σ) : Reader α :=
  match form.finish record with
  | .ok x => return x
  | .error name =>
    mistyped (.tooShort (form.members.findIdx (·.name == name)) (.record form.name)
      form.members.length)

/-- Fails on a member that has come before; an object that ends here is left. -/
def repeatedMember {α : Type} (name : String) : Reader α := do
  if (← peek?) = some '\x7d' then advance
  mistyped (.repeated name)

/-- The members of a record by name, up to the closing brace. Unknown names are passed over, and no
known name may come twice. -/
def namedMembers {σ α : Type} (form : Form σ α) : Nat → Bool → List String → σ → Reader α
  | 0, _, _, _ => outOfSteps
  | n + 1, first, seen, record => do
    if ← hasMember first then
      let key ← quoted
      match form.members.find? (·.name == key) with
      | some m =>
        if seen.contains key then repeatedMember key
        else
          colon
          let change ← m.read
          namedMembers form n false (key :: seen) (change record)
      | none =>
        colon
        skip n
        namedMembers form n false seen record
    else
      advance
      form.close record

/-- The end of a record that is written as a list. -/
def endOfItems : Reader Unit := do
  match ← peek? with
  | none => failNext .endOfList
  | some ']' => advance
  | some ',' =>
    advance
    match ← peek? with
    | some ']' => failNext .trailingComma
    | _ => failNext .trailingCharacters
  | some _ => failNext .trailingCharacters

/-- The members of a record in order of declaration; the last ones may be absent. -/
def listedMembers {σ α : Type} (form : Form σ α) : List (Member σ) → Bool → σ → Reader α
  | [], _, record => do
    endOfItems
    form.closeList record
  | m :: ms, first, record => do
    if ← hasItem first then
      let change ← m.read
      listedMembers form ms false (change record)
    else
      advance
      form.closeList record

/-- A record, written as an object or as a list of its members. -/
def record {σ α : Type} (bound : Nat) (form : Form σ α) : Reader α := do
  match ← start with
  | '[' =>
    advance
    listedMembers form form.members true form.blank
  | '\x7b' =>
    advance
    namedMembers form bound true [] form.blank
  | _ => wrongKind (.record form.name)

/-- Reads a whole text. -/
def readAll {α : Type} (reader : Nat → Reader α) (source : String) : Except Failure α := do
  let whole : Reader α := do
    let x ← reader (2 * source.length + 2)
    match ← peek? with
    | none => return x
    | some _ => failNext .trailingCharacters
  return (← whole.run (.ofText source)).1

end BlockSketch.Json
