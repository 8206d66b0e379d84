import BlockSketch.Block

namespace BlockSketch

structure Workspace where
  blocks : Table Block := ∅
  deriving Repr

inductive WorkspaceError where
  | duplicateId (id : String)
  | noSuchBlock (id : String)
  deriving DecidableEq, Repr

def WorkspaceError.message : WorkspaceError → String
  | .duplicateId id => s!"duplicate block id '{id}'"
  | .noSuchBlock id => s!"no block with id '{id}'"

/-- A place on a block where another can be linked. -/
inductive Socket where
  | next
  | statement (slot : String)
  | value (slot : String)
  deriving DecidableEq, Repr

namespace Block

def linked? (b : Block) : Socket → Option String
  | .next => b.next
  | .statement slot => b.statements.get? slot
  | .value slot => b.values.get? slot

/-- Links `child` at a socket; a slot in use keeps its place. -/
def plug (b : Block) (child : String) : Socket → Block
  | .next => { b with next := some child }
  | .statement slot => { b with statements := b.statements.insert slot child }
  | .value slot => { b with values := b.values.insert slot child }

def unplug (b : Block) : Socket → Block
  | .next => { b with next := none }
  | .statement slot => { b with statements := b.statements.erase slot }
  | .value slot => { b with values := b.values.erase slot }

end Block

namespace Workspace

def empty : Workspace := {}

def size (w : Workspace) : Nat := w.blocks.size

def get? (w : Workspace) (id : String) : Option Block := w.blocks.get? id

def contains (w : Workspace) (id : String) : Bool := w.blocks.contains id

def require (w : Workspace) (id : String) : Except WorkspaceError Block :=
  match w.get? id with
  | some b => .ok b
  | none => .error (.noSuchBlock id)

def insert (w : Workspace) (b : Block) : Except WorkspaceError Workspace :=
  if w.contains b.id then .error (.duplicateId b.id) else .ok ⟨w.blocks.insert b.id b⟩

/-- Takes a block out, with every link to it. Its children stay. -/
def remove (w : Workspace) (id : String) : Except WorkspaceError (Block × Workspace) :=
  match w.require id with
  | .error e => .error e
  | .ok b => .ok (b, ⟨(w.blocks.erase id).map (·.unlink id)⟩)

def update (w : Workspace) (id : String) (f : Block → Block) : Except WorkspaceError Workspace :=
  match w.require id with
  | .error e => .error e
  | .ok _ => .ok ⟨w.blocks.modify id f⟩

def setField (w : Workspace) (id name : String) (v : FieldValue) : Except WorkspaceError Workspace :=
  w.update id fun b => { b with fields := b.fields.insert name v }

def setMutation (w : Workspace) (id : String) (m : Mutation) : Except WorkspaceError Workspace :=
  w.update id fun b => { b with mutation := m }

def setEnabled (w : Workspace) (id : String) (on : Bool) : Except WorkspaceError Workspace :=
  w.update id fun b => { b with enabled := on }

/-- Links `child` at a socket of `parent` and answers what was linked there before. A missing child
is reported before a missing parent. -/
def connect (w : Workspace) (parent : String) (s : Socket) (child : String) :
    Except WorkspaceError (Option String × Workspace) := do
  let _ ← w.require child
  let b ← w.require parent
  return (b.linked? s, ⟨w.blocks.modify parent (·.plug child s)⟩)

/-- Empties a socket of `parent` and answers what was linked there. -/
def disconnect (w : Workspace) (parent : String) (s : Socket) :
    Except WorkspaceError (Option String × Workspace) := do
  let b ← w.require parent
  return (b.linked? s, ⟨w.blocks.modify parent (·.unplug s)⟩)

end Workspace

end BlockSketch
