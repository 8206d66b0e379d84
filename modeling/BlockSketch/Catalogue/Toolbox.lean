import BlockSketch.Catalogue
import BlockSketch.Json.Value

namespace BlockSketch

structure ToolboxCategory where
  name : String
  colour : Nat
  types : List String
  deriving DecidableEq, Repr

/-- The categories that list at least one type, in order of first definition. -/
def Catalogue.toolbox (c : Catalogue) : List ToolboxCategory :=
  (c.categories.entries.map fun e => ⟨e.1, e.2, c.typesIn e.1⟩).filter fun t => !t.types.isEmpty

namespace Toolbox

def entryJson (typeId : String) : Json.Value :=
  .object [("kind", .text "block"), ("type", .text typeId)]

def categoryJson (t : ToolboxCategory) : Json.Value :=
  .object [
    ("kind", .text "category"),
    ("name", .text t.name),
    ("colour", .text (Json.wholeText t.colour)),
    ("contents", .list (t.types.map entryJson))]

def json (categories : List ToolboxCategory) : Json.Value :=
  .object [
    ("kind", .text "categoryToolbox"),
    ("contents", .list (categories.map categoryJson))]

end Toolbox

end BlockSketch
