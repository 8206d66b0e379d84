import BlockSketch.Document
import BlockSketch.Json.Reader

namespace BlockSketch.Document

structure Draft where
  typeId : Option String := none
  id : Option String := none
  x : Float := 0.0
  y : Float := 0.0
  enabled : Bool := true
  fields : List (String × Json.Value) := []
  inputs : List (String × Connection) := []
  next : Option Connection := none
  mutation : Mutation := {}

def Draft.node (d : Draft) : Except String Node :=
  match d.typeId with
  | none => .error "type"
  | some typeId => .ok <| .mk
      { typeId := typeId
        id := d.id
        position := ⟨.ofFloat d.x, .ofFloat d.y⟩
        enabled := d.enabled
        mutation := d.mutation
        fields := d.fields }
      d.inputs d.next

def mutationMembers : List (Json.Member Mutation) :=
  [Json.member "elseIfCount" Json.count fun n m => { m with elseIfCount := n },
    Json.member "hasElse" Json.flag fun b m => { m with hasElse := b }]

def mutationForm : Json.Form Mutation Mutation := .lenient "ExtraState" mutationMembers {}

def readMutation (bound : Nat) : Json.Reader Mutation := Json.record bound mutationForm

/-- The members of a block, given a reader for its connections. -/
def draftMembers (bound : Nat) (connection : Json.Reader Connection) : List (Json.Member Draft) :=
  [Json.member "type" Json.text fun s d => { d with typeId := some s },
    Json.member "id" (Json.optional Json.text) fun s d => { d with id := s },
    Json.member "x" Json.real fun x d => { d with x := x },
    Json.member "y" Json.real fun y d => { d with y := y },
    Json.member "enabled" Json.flag fun b d => { d with enabled := b },
    Json.member "fields" (Json.object bound (Json.value bound)) fun l d => { d with fields := l },
    Json.member "inputs" (Json.object bound connection) fun l d => { d with inputs := l },
    Json.member "next" (Json.optional connection) fun c d => { d with next := c },
    Json.member "extraState" (Json.optional (readMutation bound)) fun m d =>
      { d with mutation := m.getD {} }]

def connectionMembers (node : Json.Reader Node) :
    List (Json.Member (Option Node × Option Node)) :=
  [Json.member "block" (Json.optional node) fun b c => (b, c.2),
    Json.member "shadow" (Json.optional node) fun s c => (c.1, s)]

def nodeForm (bound : Nat) (connection : Json.Reader Connection) : Json.Form Draft Node :=
  ⟨"SerializedBlock", draftMembers bound connection, {}, Draft.node⟩

def connectionForm (node : Json.Reader Node) : Json.Form (Option Node × Option Node) Connection :=
  ⟨"SerializedConnection", connectionMembers node, (none, none), fun c => .ok (.mk c.1 c.2)⟩

mutual

def readNode : Nat → Json.Reader Node
  | 0 => Json.outOfSteps
  | n + 1 => Json.record (n + 1) (nodeForm (n + 1) (readConnection n))

def readConnection : Nat → Json.Reader Connection
  | 0 => Json.outOfSteps
  | n + 1 => Json.record (n + 1) (connectionForm (readNode n))

end

/-- The record that holds the list of top-level blocks. -/
def blocksForm (bound : Nat) : Json.Form (List Node) (List Node) :=
  .lenient "SerializedBlocks"
    [Json.member "blocks" (Json.list bound (readNode bound)) fun l _ => l] []

/-- A whole document: its top-level blocks. -/
def documentForm (bound : Nat) : Json.Form (List Node) (List Node) :=
  .lenient "SerializedWorkspace"
    [Json.member "blocks" (Json.optional (Json.record bound (blocksForm bound))) fun l _ =>
      l.getD []] []

def readDocument (bound : Nat) : Json.Reader (List Node) := Json.record bound (documentForm bound)

def read (source : String) : Except Json.Failure (List Node) := Json.readAll readDocument source

end BlockSketch.Document
