namespace BlockSketch

/-- Words of the target language and of its standard functions, in declaration order. -/
def reservedWords : List String :=
  ["setup", "loop", "if", "else", "for", "switch", "case", "while", "do", "break", "continue",
    "return", "goto", "define", "include", "HIGH", "LOW", "INPUT", "OUTPUT", "INPUT_PULLUP", "true",
    "false", "integer", "constants", "floating", "point", "void", "boolean", "char", "unsigned",
    "byte", "int", "word", "long", "float", "double", "string", "String", "array", "static",
    "volatile", "const", "sizeof", "pinMode", "digitalWrite", "digitalRead", "analogReference",
    "analogRead", "analogWrite", "tone", "noTone", "millis", "micros", "delay", "delayMicroseconds",
    "min", "max", "abs", "constrain", "map", "pow", "sqrt", "sin", "cos", "tan", "randomSeed",
    "random", "attachInterrupt", "detachInterrupt", "interrupts", "noInterrupts"]

/-- Why a name cannot be used. -/
inductive IdentifierError where
  | empty
  | reserved (name : String)
  | invalid (name : String)
  deriving DecidableEq, Repr

def IdentifierError.message : IdentifierError → String
  | .empty => "identifier is empty"
  | .reserved name => s!"'{name}' is a reserved word"
  | .invalid name => s!"'{name}' is not a valid C identifier"

def startsIdentifier (c : Char) : Bool := c.isAlpha || c == '_'

def continuesIdentifier (c : Char) : Bool := c.isAlphanum || c == '_'

/-- The fault of a name, if it has one. -/
def identifierError? (name : String) : Option IdentifierError :=
  match name.toList with
  | [] => some .empty
  | c :: r =>
    if startsIdentifier c && r.all continuesIdentifier then
      if name ∈ reservedWords then some (.reserved name) else none
    else some (.invalid name)

end BlockSketch
