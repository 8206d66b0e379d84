import BlockSketch.Catalogue
import BlockSketch.Identifier
import BlockSketch.Workspace

namespace BlockSketch

/-- A field whose text cannot name a variable. -/
structure IdentifierWarning where
  block : String
  field : String
  error : IdentifierError
  deriving DecidableEq, Repr

def IdentifierWarning.message (w : IdentifierWarning) : String :=
  "block '" ++ w.block ++ "' field " ++ w.field ++ ": " ++ w.error.message

/-- The value of a field, or its default. -/
def Block.fieldOrDefault (b : Block) (spec : FieldSpec) : FieldValue :=
  (b.fields.get? spec.name).getD spec.default

def Block.identifierWarning? (b : Block) (id : String) (spec : FieldSpec) :
    Option IdentifierWarning :=
  if spec.identifier then
    (identifierError? (b.fieldOrDefault spec).render).map fun e => ⟨id, spec.name, e⟩
  else none

/-- The warnings of all blocks of known type, in order of insertion. -/
def Workspace.identifierWarnings (w : Workspace) (c : Catalogue) : List IdentifierWarning :=
  w.blocks.entries.flatMap fun e =>
    match c.shape? e.2.typeId with
    | some shape => shape.fields.filterMap (e.2.identifierWarning? e.1)
    | none => []

end BlockSketch
