namespace BlockSketch.Program

/-- The precedence of an expression; a lower rank binds tighter. -/
structure Order where
  rank : Nat
  deriving DecidableEq, Repr

namespace Order

def atomic : Order := ⟨0⟩
def unary : Order := ⟨1⟩
def multiplicative : Order := ⟨2⟩
def additive : Order := ⟨3⟩
def relational : Order := ⟨5⟩
def equality : Order := ⟨6⟩
def logicalAnd : Order := ⟨10⟩
def logicalOr : Order := ⟨11⟩

/-- The order of a place that takes any expression as it is. -/
def loosest : Order := ⟨99⟩

/-- Whether an expression of order `inner` needs parentheses where `outer` is asked for. Equal
orders do, except the two extreme ones. -/
def needsParens (outer inner : Order) : Bool :=
  if inner.rank < outer.rank then false
  else !(outer == inner && (outer == atomic || outer == loosest))

def wrap (outer : Order) (code : String) (inner : Order) : String :=
  if outer.needsParens inner then "(" ++ code ++ ")" else code

end Order

end BlockSketch.Program
