import BlockSketch.Double
import BlockSketch.Field
import BlockSketch.Table

namespace BlockSketch

/-- Where a block lies on the editor's surface. -/
structure Position where
  x : Double := .ofFloat 0.0
  y : Double := .ofFloat 0.0
  deriving Repr

/-- How many else-if branches an if block has, and whether it has an else branch. -/
structure Mutation where
  elseIfCount : Nat := 0
  hasElse : Bool := false
  deriving DecidableEq, Repr

structure Block where
  id : String
  typeId : String
  fields : Table FieldValue := ∅
  statements : Table String := ∅
  values : Table String := ∅
  next : Option String := none
  mutation : Mutation := {}
  /-- A block that is not enabled emits nothing; the blocks after it still do. -/
  enabled : Bool := true
  position : Position := {}
  deriving Repr

namespace Block

/-- Every block that this one links to: statement slots, value slots, then the next block. -/
def children (b : Block) : List String := b.statements.values ++ b.values.values ++ b.next.toList

/-- Takes away every link to `id`. -/
def unlink (b : Block) (id : String) : Block :=
  { b with
    statements := b.statements.filter fun _ child => child ≠ id
    values := b.values.filter fun _ child => child ≠ id
    next := b.next.filter (· ≠ id) }

end Block

end BlockSketch
