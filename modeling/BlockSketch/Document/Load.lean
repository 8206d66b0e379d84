import BlockSketch.Catalogue
import BlockSketch.Diagnostic
import BlockSketch.Document.Reader
import BlockSketch.Workspace

namespace BlockSketch.Document

/-- Where a block is attached. -/
inductive Site where
  | top
  | next (parent : String)
  | statement (parent slot : String)
  | value (parent slot : String)
  deriving DecidableEq, Repr

/-- Why a block cannot stand where it does. -/
inductive Misplacement where
  | nestedEntry
  | valueAfter (parent : String)
  | valueInStatement (parent slot : String)
  | statementInValue (parent slot : String)
  deriving DecidableEq, Repr

def Misplacement.reason : Misplacement → String
  | .nestedEntry => "is a program entry and must stay top-level"
  | .valueAfter parent => s!"is a value block and cannot follow '{parent}'"
  | .valueInStatement parent slot =>
    s!"is a value block and cannot go in statement input {slot} of '{parent}'"
  | .statementInValue parent slot =>
    s!"is a statement block and cannot go in value input {slot} of '{parent}'"

def misplacement? (shape : Shape) : Site → Option Misplacement
  | .top => none
  | .next parent =>
    if shape.isEntry then some .nestedEntry
    else if shape.isValue then some (.valueAfter parent)
    else none
  | .statement parent slot =>
    if shape.isEntry then some .nestedEntry
    else if shape.isValue then some (.valueInStatement parent slot)
    else none
  | .value parent slot =>
    if shape.isEntry then some .nestedEntry
    else if shape.isStatement then some (.statementInValue parent slot)
    else none

inductive Fault where
  | misplaced (why : Misplacement)
  | unsupportedField (name : String) (v : Json.Value)
  | duplicateId
  | unknownInput (slot : String)
  | cannotBeFollowed

/-- A fault of one block. -/
structure Problem where
  block : String
  typeId : String
  fault : Fault

def Problem.message (p : Problem) : String :=
  match p.fault with
  | .misplaced why => "'" ++ p.typeId ++ "' " ++ why.reason
  | .unsupportedField name v => "field " ++ name ++ " has unsupported value " ++ v.compact
  | .duplicateId => (WorkspaceError.duplicateId p.block).message
  | .unknownInput slot => "'" ++ p.typeId ++ "' has no input named " ++ slot
  | .cannotBeFollowed => "'" ++ p.typeId ++ "' cannot be followed by another block"

/-- What loading has done so far. -/
structure Progress where
  generated : Nat := 0
  taken : List String := []
  problems : List Problem := []

abbrev Loading := StateM Progress

def reportAll (ps : List Problem) : Loading Unit :=
  modify fun s => { s with problems := s.problems ++ ps }

def report (p : Problem) : Loading Unit := reportAll [p]

/-- The id of a block without one: `b1`, `b2` and so on. -/
def generatedId (n : Nat) : String := indexedSlot "b" n

def takeId (id : Option String) : Loading String := do
  match id with
  | some id => return id
  | none =>
    modify fun s => { s with generated := s.generated + 1 }
    return generatedId (← get).generated

/-- Numbers, texts and truth values can stand in a field; the latter as text. -/
def fieldValue? : Json.Value → Option FieldValue
  | .whole n => some (.number (Json.Numeral.whole n).toFloat)
  | .real x => some (.number x)
  | .text s => some (.text s)
  | .flag b => some (.text (Json.flagText b))
  | _ => none

def supportedFields (fields : List (String × Json.Value)) : List (String × FieldValue) :=
  fields.filterMap fun e => (fieldValue? e.2).map fun v => (e.1, v)

/-- One problem for every field whose value is not supported. -/
def fieldProblems (id typeId : String) (fields : List (String × Json.Value)) : List Problem :=
  (fields.filter fun e => (fieldValue? e.2).isNone).map fun e =>
    ⟨id, typeId, .unsupportedField e.1 e.2⟩

/-- The socket that an input goes to. A parent of unknown type takes each child as the child's own
type has it. -/
def socket? (c : Catalogue) (parent : Option Shape) (m : Mutation) (slot : String)
    (child : Tree) : Option Socket :=
  match parent with
  | some shape =>
    if shape.acceptsValue slot m then some (.value slot)
    else if shape.acceptsStatement slot m then some (.statement slot)
    else none
  | none =>
    match c.shape? child.entry.typeId with
    | some shape => if shape.isValue then some (.value slot) else some (.statement slot)
    | none => some (.statement slot)

/-- The site that a socket of `parent` is. -/
def siteAt (parent : String) : Socket → Site
  | .next => .next parent
  | .statement slot => .statement parent slot
  | .value slot => .value parent slot

/-- Links the first of the placed blocks, if any was placed. -/
def plugFirst (b : Block) (s : Socket) (placed : List Block) : Block :=
  match placed with
  | [] => b
  | child :: _ => b.plug child.id s

/-- Whether a block of this type may be followed by another. -/
def canBeFollowed (shape : Option Shape) : Bool :=
  match shape with
  | some s => s.isChainable
  | none => true

mutual

/-- Places a tree: its block first, then the blocks of its inputs, then those that follow. A block
that is refused takes everything under and after it along. -/
def placeTree (c : Catalogue) (site : Site) : Tree → Loading (List Block)
  | .node entry inputs next => do
    let id ← takeId entry.id
    let shape := c.shape? entry.typeId
    match shape.bind (misplacement? · site) with
    | some why =>
      report ⟨id, entry.typeId, .misplaced why⟩
      return []
    | none =>
      reportAll (fieldProblems id entry.typeId entry.fields)
      if (← get).taken.contains id then
        report ⟨id, entry.typeId, .duplicateId⟩
        return []
      else
        modify fun s => { s with taken := id :: s.taken }
        let bare : Block :=
          { id := id
            typeId := entry.typeId
            fields := Table.ofList (supportedFields entry.fields)
            mutation := entry.mutation
            enabled := entry.enabled
            position := entry.position }
        let (block, inner) ← placeInputs c shape bare inputs
        match next with
        | none => return block :: inner
        | some tree =>
          if canBeFollowed shape then
            let following ← placeTree c (.next id) tree
            return plugFirst block .next following :: (inner ++ following)
          else
            report ⟨id, entry.typeId, .cannotBeFollowed⟩
            return block :: inner

/-- Places the inputs of a block in order, and links those that were placed. -/
def placeInputs (c : Catalogue) (shape : Option Shape) (b : Block) :
    List (String × Tree) → Loading (Block × List Block)
  | [] => return (b, [])
  | (slot, tree) :: r => do
    match socket? c shape b.mutation slot tree with
    | none =>
      report ⟨b.id, b.typeId, .unknownInput slot⟩
      placeInputs c shape b r
    | some socket =>
      let placed ← placeTree c (siteAt b.id socket) tree
      let (block, others) ← placeInputs c shape (plugFirst b socket placed) r
      return (block, placed ++ others)

end

def placeForest (c : Catalogue) : List Tree → Loading (List Block)
  | [] => return []
  | tree :: r => do
    let placed ← placeTree c .top tree
    let others ← placeForest c r
    return placed ++ others

/-- The workspace of blocks with distinct ids. -/
def workspaceOf (blocks : List Block) : Workspace :=
  ⟨Table.ofList (blocks.map fun b => (b.id, b))⟩

/-- The workspace of a forest, or all problems of it. -/
def loadForest (c : Catalogue) (forest : List Tree) : Except (List Problem) Workspace :=
  let (blocks, progress) := (placeForest c forest).run {}
  if progress.problems.isEmpty then .ok (workspaceOf blocks) else .error progress.problems

def loadNodes (c : Catalogue) (nodes : List Node) : Except (List Problem) Workspace :=
  loadForest c (nodes.map Node.tree)

end BlockSketch.Document

namespace BlockSketch

inductive LoadError where
  | unreadable (failure : Json.Failure)
  | problems (list : List Document.Problem)

namespace LoadError

def unreadableText : String := "invalid workspace JSON: "

/-- A failure of the reader, at the place where it was met. -/
def readerDiagnostic (source : String) (failure : Json.Failure) : Diagnostic :=
  let bytes := Text.bytes source
  let place := Text.Place.ofOffset bytes failure.offset
  { message := unreadableText ++ failure.message ++ s!" at line {place.line} column {place.column}"
    span := some (place.span bytes) }

def problemDiagnostic (p : Document.Problem) : Diagnostic :=
  { message := p.message, notes := ["in block '" ++ p.block ++ "'"] }

/-- One diagnostic per problem; a document that cannot be read has one. -/
def diagnostics (source : String) : LoadError → List Diagnostic
  | .unreadable failure => [readerDiagnostic source failure]
  | .problems list => list.map problemDiagnostic

end LoadError

def load (c : Catalogue) (source : String) : Except LoadError Workspace :=
  match Document.read source with
  | .error failure => .error (.unreadable failure)
  | .ok nodes =>
    match Document.loadNodes c nodes with
    | .ok w => .ok w
    | .error list => .error (.problems list)

end BlockSketch
