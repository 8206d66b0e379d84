import BlockSketch.Decimal.Plain

namespace BlockSketch.Program

/-- Why the value of a field cannot be written into a program. -/
inductive FieldFault where
  | undeclared
  | notNumber (text : String)
  | belowMinimum (n min : Float)
  | notChoice (text : String)
  | notOperator (text : String)

def FieldFault.reason : FieldFault → String
  | .undeclared => "not declared by the block type"
  | .notNumber text => s!"'{text}' is not a number"
  | .belowMinimum n min =>
    Decimal.plainText n ++ " is below the minimum " ++ Decimal.plainText min
  | .notChoice text => s!"'{text}' is not one of the choices"
  | .notOperator text => s!"'{text}' is not an operator"

/-- What a place asks of the block that stands there. -/
inductive Expected where
  | statement
  | nestable
  | value
  deriving DecidableEq, Repr

def Expected.text : Expected → String
  | .statement => "statement"
  | .nestable => "nestable"
  | .value => "value"

inductive Fault where
  | unknownType (block typeId : String)
  | missingRule (block typeId : String)
  | malformedField (block field : String) (why : FieldFault)
  | cyclic (block : String)
  | shared (block : String)
  | missing (id : String)
  | mismatch (block : String) (expected : Expected)

namespace Fault

def block : Fault → String
  | .unknownType b _ => b
  | .missingRule b _ => b
  | .malformedField b _ _ => b
  | .cyclic b => b
  | .shared b => b
  | .missing id => id
  | .mismatch b _ => b

def message : Fault → String
  | .unknownType b t => s!"block '{b}' has unknown type '{t}'"
  | .missingRule b t => s!"block '{b}' of type '{t}' has no code generator"
  | .malformedField b f why => s!"block '{b}' field {f}: " ++ why.reason
  | .cyclic b => s!"block '{b}' is reachable from itself"
  | .shared b => s!"block '{b}' is connected to more than one parent"
  | .missing id => s!"link to missing block '{id}'"
  | .mismatch b expected => s!"block '{b}' is not a " ++ expected.text ++ " block"

end Fault

end BlockSketch.Program
