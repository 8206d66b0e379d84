import BlockSketch.Block
import BlockSketch.Json.Value

namespace BlockSketch.Document

/-- What a document says of one block, apart from the blocks around it. -/
structure Entry where
  typeId : String
  id : Option String := none
  position : Position := {}
  enabled : Bool := true
  mutation : Mutation := {}
  fields : List (String × Json.Value) := []

mutual

/-- A block with what is plugged into it and what follows it. -/
inductive Node where
  | mk (entry : Entry) (inputs : List (String × Connection)) (next : Option Connection)

/-- What is plugged in at one place: a block, a shadow that stands in for it, or neither. -/
inductive Connection where
  | mk (block shadow : Option Node)

end

/-- A block with the blocks that are really there: each input is taken. -/
inductive Tree where
  | node (entry : Entry) (inputs : List (String × Tree)) (next : Option Tree)

def Tree.entry : Tree → Entry
  | .node e _ _ => e

/-- Of a repeated name the last value counts, at the first place. -/
def lastWins {α : Type} (l : List (String × α)) : List (String × α) := (Table.ofList l).entries

/-- Leaves out the names without a value. -/
def present {α : Type} (l : List (String × Option α)) : List (String × α) :=
  l.filterMap fun e => e.2.map fun x => (e.1, x)

mutual

/-- The block as a tree: a real block wins over a shadow, and an empty connection is no input. -/
def Node.tree : Node → Tree
  | .mk entry inputs next =>
    .node { entry with fields := lastWins entry.fields }
      (present (lastWins (inputTrees inputs)))
      (match next with
        | some c => c.tree?
        | none => none)

def Connection.tree? : Connection → Option Tree
  | .mk (some block) _ => some block.tree
  | .mk none (some shadow) => some shadow.tree
  | .mk none none => none

def inputTrees : List (String × Connection) → List (String × Option Tree)
  | [] => []
  | (slot, c) :: r => (slot, c.tree?) :: inputTrees r

end

end BlockSketch.Document
