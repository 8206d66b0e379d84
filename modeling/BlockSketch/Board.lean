import BlockSketch.Text.Blank

namespace BlockSketch

inductive Board where
  | uno
  | nano
  | mega
  deriving DecidableEq, Repr

instance : Inhabited Board := ⟨.uno⟩

namespace Board

def all : List Board := [uno, nano, mega]

def shortName : Board → String
  | uno => "uno"
  | nano => "nano"
  | mega => "mega"

/-- The name by which a compile service knows the board. -/
def fullName (b : Board) : String := "arduino:avr:" ++ b.shortName

/-- A board by its short or its full name, blanks around it and ASCII case apart. -/
def ofName? (name : String) : Option Board :=
  let wanted := String.ofList ((Text.trim name).toList.map Char.toLower)
  all.find? fun b => b.shortName == wanted || b.fullName == wanted

def unknownMessage (name : String) : String :=
  "unknown board '" ++ name ++ "' (expected uno, nano, mega or a full arduino:avr name)"

end Board

end BlockSketch
