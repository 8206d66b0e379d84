import BlockSketch.Json.Failure
import BlockSketch.Text.Place

namespace BlockSketch.Json

structure Cursor where
  rest : List Char
  offset : Nat
  deriving DecidableEq, Repr

def Cursor.ofText (s : String) : Cursor := ⟨s.toList, 0⟩

abbrev Reader := StateT Cursor (Except Failure)

/-- Fails after `extra` more bytes. -/
def failAfter {α : Type} (extra : Nat) (cause : Cause) : Reader α := do
  throw (.malformed cause ((← get).offset + extra))

/-- Fails right after the next byte, or at the end of the text. -/
def failNext {α : Type} (cause : Cause) : Reader α := do
  failAfter (if (← get).rest.isEmpty then 0 else 1) cause

/-- Fails at the place that has been reached. -/
def mistyped {α : Type} (mismatch : Mismatch) : Reader α := do
  throw (.mistyped mismatch (← get).offset)

def advance : Reader Unit := do
  match (← get).rest with
  | [] => return
  | c :: r => set (Cursor.mk r ((← get).offset + c.utf8Size))

def isJsonBlank (c : Char) : Bool := c == ' ' || c == '\n' || c == '\t' || c == '\r'

/-- Skips blanks, which are one byte each, and looks at the next character. -/
def peek? : Reader (Option Char) := do
  let cursor ← get
  let blanks := cursor.rest.takeWhile isJsonBlank
  let rest := cursor.rest.dropWhile isJsonBlank
  set (Cursor.mk rest (cursor.offset + blanks.length))
  return rest.head?

/-- The first character of a value. -/
def start : Reader Char := do
  match ← peek? with
  | some c => return c
  | none => failNext .endOfValue

/-- Reads the given letters. -/
def word : List Char → Reader Unit
  | [] => return
  | w :: ws => do
    match (← get).rest with
    | [] => failAfter 0 .endOfValue
    | c :: _ =>
      if c = w then
        advance
        word ws
      else failAfter 1 .expectedWord

def digits : Reader (List Char) := do
  let cursor ← get
  let ds := cursor.rest.takeWhile Char.isDigit
  set (Cursor.mk (cursor.rest.dropWhile Char.isDigit) (cursor.offset + ds.length))
  return ds

/-- The next character without skipping blanks. -/
def ahead? : Reader (Option Char) := return (← get).rest.head?

end BlockSketch.Json
