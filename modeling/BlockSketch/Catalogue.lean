import BlockSketch.Shape

namespace BlockSketch

structure Catalogue where
  types : Table Shape := ∅
  categories : Table Nat := ∅
  deriving Repr

namespace Catalogue

def empty : Catalogue := {}

/-- Gives a type its shape; a type that is defined again keeps its place. -/
def defineType (c : Catalogue) (typeId : String) (shape : Shape) : Catalogue :=
  { c with types := c.types.insert typeId shape }

def defineTypes (c : Catalogue) (types : List (String × Shape)) : Catalogue :=
  types.foldl (fun c e => c.defineType e.1 e.2) c

def defineCategory (c : Catalogue) (name : String) (colour : Nat) : Catalogue :=
  { c with categories := c.categories.insert name colour }

def defineCategories (c : Catalogue) (categories : List (String × Nat)) : Catalogue :=
  categories.foldl (fun c e => c.defineCategory e.1 e.2) c

def shape? (c : Catalogue) (typeId : String) : Option Shape := c.types.get? typeId

/-- The types of a category, in order of first definition. -/
def typesIn (c : Catalogue) (category : String) : List String :=
  (c.types.entries.filter fun e => e.2.presentation.category == some category).map Prod.fst

end Catalogue

end BlockSketch
