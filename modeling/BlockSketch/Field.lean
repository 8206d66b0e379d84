import BlockSketch.Decimal.Plain
import BlockSketch.Decimal.Reading
import BlockSketch.Text.Blank

namespace BlockSketch

/-- A scalar on a block. A choice is stored as its text. -/
inductive FieldValue where
  | number (n : Float)
  | text (s : String)
  deriving Repr

namespace FieldValue

def kind : FieldValue → String
  | number _ => "Number"
  | text _ => "Text"

/-- The value as a number; a text counts if it reads as one after trimming. -/
def number? : FieldValue → Option Float
  | number n => some n
  | text s => Decimal.read? (Text.trim s).toList

def text? : FieldValue → Option String
  | number _ => none
  | text s => some s

def render : FieldValue → String
  | number n => Decimal.plainText n
  | text s => s

/-- Equal numbers or equal texts; a number never equals a text. -/
def same : FieldValue → FieldValue → Bool
  | number a, number b => a == b
  | text a, text b => a == b
  | _, _ => false

end FieldValue

end BlockSketch
