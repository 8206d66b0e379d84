import BlockSketch.Json.Cursor

namespace BlockSketch.Json

def hexValue? (c : Char) : Option Nat :=
  if c.isDigit then some (c.toNat - '0'.toNat)
  else if 'a' ≤ c ∧ c ≤ 'f' then some (c.toNat - 'a'.toNat + 10)
  else if 'A' ≤ c ∧ c ≤ 'F' then some (c.toNat - 'A'.toNat + 10)
  else none

/-- The number that four hexadecimal digits stand for. -/
def hexValue4? (a b c d : Char) : Option Nat := do
  let a ← hexValue? a
  let b ← hexValue? b
  let c ← hexValue? c
  let d ← hexValue? d
  return ((a * 16 + b) * 16 + c) * 16 + d

/-- Fewer than four bytes after the mark are the end of the text, else they are no digits. -/
def hexFailure (rest : List Char) (offset : Nat) : Failure :=
  if Text.byteCount rest < 4 then .malformed .endOfText (offset + Text.byteCount rest)
  else .malformed .invalidEscape (offset + 4)

/-- The character that a letter after a backslash stands for. -/
def escaped? (c : Char) : Option Char :=
  match c with
  | '"' => some '"'
  | '\\' => some '\\'
  | '/' => some '/'
  | 'b' => some (Char.ofNat 8)
  | 'f' => some (Char.ofNat 12)
  | 'n' => some '\n'
  | 'r' => some '\r'
  | 't' => some '\t'
  | _ => none

/-- The first half of a surrogate pair. -/
def isLeading (n : Nat) : Bool := 0xD800 ≤ n && n ≤ 0xDBFF

def isTrailing (n : Nat) : Bool := 0xDC00 ≤ n && n ≤ 0xDFFF

/-- Reads up to the closing quote. `leading` is the first half of a pair whose second half must come
next. A text that is passed over is `lenient`: its pairs may be broken. -/
def quotedFrom (lenient : Bool) :
    Option Nat → List Char → Nat → List Char → Except Failure (List Char × Cursor)
  | none, '\\' :: 'u' :: a :: b :: c :: d :: r, offset, acc =>
    match hexValue4? a b c d with
    | none => .error (hexFailure (a :: b :: c :: d :: r) (offset + 2))
    | some n =>
      if lenient then quotedFrom lenient none r (offset + 6) acc
      else if isTrailing n then .error (.malformed .loneSurrogate (offset + 6))
      else if isLeading n then quotedFrom lenient (some n) r (offset + 6) acc
      else quotedFrom lenient none r (offset + 6) (Char.ofNat n :: acc)
  | some lead, '\\' :: 'u' :: a :: b :: c :: d :: r, offset, acc =>
    match hexValue4? a b c d with
    | none => .error (hexFailure (a :: b :: c :: d :: r) (offset + 2))
    | some n =>
      if isTrailing n then
        quotedFrom lenient none r (offset + 6)
          (Char.ofNat (0x10000 + (lead - 0xD800) * 0x400 + (n - 0xDC00)) :: acc)
      else .error (.malformed .loneSurrogate (offset + 6))
  | _, '\\' :: 'u' :: r, offset, _ => .error (hexFailure r (offset + 2))
  | some _, '\\' :: _ :: _, offset, _ => .error (.malformed .brokenPair (offset + 2))
  | none, '\\' :: c :: r, offset, acc =>
    match escaped? c with
    | some e => quotedFrom lenient none r (offset + 2) (e :: acc)
    | none => .error (.malformed .invalidEscape (offset + 2))
  | _, ['\\'], offset, _ => .error (.malformed .endOfText (offset + 1))
  | some _, _ :: _, offset, _ => .error (.malformed .brokenPair (offset + 1))
  | none, c :: r, offset, acc =>
    if c = '"' then .ok (acc.reverse, ⟨r, offset + 1⟩)
    else if c.toNat < 0x20 then
      .error (.malformed .controlCharacter (if lenient then offset else offset + 1))
    else quotedFrom lenient none r (offset + c.utf8Size) (c :: acc)
  | _, [], offset, _ => .error (.malformed .endOfText offset)

def quoted : Reader String := do
  advance
  let cursor ← get
  match quotedFrom false none cursor.rest cursor.offset [] with
  | .ok (s, cursor') =>
    set cursor'
    return String.ofList s
  | .error e => throw e

def skipQuoted : Reader Unit := do
  advance
  let cursor ← get
  match quotedFrom true none cursor.rest cursor.offset [] with
  | .ok (_, cursor') => set cursor'
  | .error e => throw e

end BlockSketch.Json
