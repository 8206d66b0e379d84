import BlockSketch.Json.Value
import BlockSketch.Text.Printable

namespace BlockSketch.Json

/-- Why a text is no JSON. -/
inductive Cause where
  | endOfValue
  | endOfObject
  | endOfList
  | endOfText
  | expectedValue
  | expectedWord
  | expectedColon
  | expectedCommaOrBrace
  | expectedCommaOrBracket
  | keyNotText
  | trailingComma
  | trailingCharacters
  | invalidNumber
  | numberOutOfRange
  | invalidEscape
  | loneSurrogate
  | brokenPair
  | controlCharacter
  deriving DecidableEq, Repr

def Cause.message : Cause → String
  | .endOfValue => "EOF while parsing a value"
  | .endOfObject => "EOF while parsing an object"
  | .endOfList => "EOF while parsing a list"
  | .endOfText => "EOF while parsing a string"
  | .expectedValue => "expected value"
  | .expectedWord => "expected ident"
  | .expectedColon => "expected `:`"
  | .expectedCommaOrBrace => "expected `,` or `\x7d`"
  | .expectedCommaOrBracket => "expected `,` or `]`"
  | .keyNotText => "key must be a string"
  | .trailingComma => "trailing comma"
  | .trailingCharacters => "trailing characters"
  | .invalidNumber => "invalid number"
  | .numberOutOfRange => "number out of range"
  | .invalidEscape => "invalid escape"
  | .loneSurrogate => "lone leading surrogate in hex escape"
  | .brokenPair => "unexpected end of hex escape"
  | .controlCharacter => "control character (\\u0000-\\u001F) found while parsing a string"

/-- What a reader can ask for. -/
inductive Kind where
  | null
  | text
  | flag
  | real
  | count
  | list
  | object
  | record (name : String)
  deriving DecidableEq, Repr

def Kind.message : Kind → String
  | .null => "unit"
  | .text => "a string"
  | .flag => "a boolean"
  | .real => "f64"
  | .count => "usize"
  | .list => "a sequence"
  | .object => "a map"
  | .record name => "struct " ++ name

/-- What stands in the text; of a list or an object only that it starts. -/
inductive Found where
  | null
  | flag (b : Bool)
  | whole (n : Int)
  | real (x : Float)
  | text (s : String)
  | list
  | object
  deriving Repr

/-- Words in backticks. -/
def marked (s : String) : String := "`" ++ s ++ "`"

def Found.message : Found → String
  | .null => "null"
  | .flag b => "boolean " ++ marked (flagText b)
  | .whole n => "integer " ++ marked (wholeText n)
  | .real x => "floating point " ++ marked (realText x)
  | .text s => "string " ++ Text.inQuotes s
  | .list => "sequence"
  | .object => "map"

/-- Why a text that is JSON so far is not what is asked for. -/
inductive Mismatch where
  | kind (found : Found) (expected : Kind)
  | outOfRange (found : Found) (expected : Kind)
  | missing (name : String)
  | repeated (name : String)
  /-- A record that is written as a list and ends before a member that it must have. -/
  | tooShort (length : Nat) (record : Kind) (size : Nat)
  | unknownName (name : String) (known : List String)
  deriving Repr

def Mismatch.message : Mismatch → String
  | .kind found expected => "invalid type: " ++ found.message ++ ", expected " ++ expected.message
  | .outOfRange found expected =>
    "invalid value: " ++ found.message ++ ", expected " ++ expected.message
  | .missing name => "missing field " ++ marked name
  | .repeated name => "duplicate field " ++ marked name
  | .tooShort length record size =>
    s!"invalid length {length}, expected " ++ record.message ++ s!" with {size} element" ++
      if size = 1 then "" else "s"
  | .unknownName name known =>
    "unknown variant " ++ marked name ++ ", expected one of " ++
      String.intercalate ", " (known.map marked)

inductive Failure where
  | malformed (cause : Cause) (offset : Nat)
  | mistyped (mismatch : Mismatch) (offset : Nat)
  deriving Repr

def Failure.message : Failure → String
  | .malformed cause _ => cause.message
  | .mistyped mismatch _ => mismatch.message

def Failure.offset : Failure → Nat
  | .malformed _ offset => offset
  | .mistyped _ offset => offset

end BlockSketch.Json
