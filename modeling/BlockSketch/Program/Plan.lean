import BlockSketch.Program.Fault
import BlockSketch.Program.Order

namespace BlockSketch.Program

inductive Rendered where
  | statement (code : String)
  | value (code : String) (order : Order)
  deriving DecidableEq, Repr

namespace Rendered

def atomic (code : String) : Rendered := .value code .atomic

end Rendered

/-- A rule's next step, and what it does with the answer. -/
inductive Plan where
  | done (r : Rendered)
  | refuse (field : String) (why : FieldFault)
  | field (name : String) (k : String → Plan)
  | operand (slot : String) (outer : Order) (k : String → Plan)
  | body (slot : String) (k : String → Plan)
  | define (key text : String) (k : Plan)

end BlockSketch.Program
