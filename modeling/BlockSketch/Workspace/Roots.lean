import BlockSketch.Catalogue
import BlockSketch.Sorting
import BlockSketch.Workspace

namespace BlockSketch

/-- The sine of three degrees: blocks are met along lines that fall to the right by this angle. -/
def scanTilt : Float := 0.052335956242943835

namespace Position

/-- What the sum along the scan is where it is no number: the coordinate that is none, or a negative one
if opposite infinities are added. -/
def brokenSum (p : Position) : NotNumber :=
  match p.x, p.y with
  | .notNumber n, _ => n.quieted
  | _, .notNumber n => n.quieted
  | _, _ => .quiet true

/-- The place of a position along the scan. Arithmetic leaves open which double a sum is that is no
number, so this is asked of `broken`. -/
def scanKeyBy (broken : Position → NotNumber) (p : Position) : Double :=
  let sum := p.y.value + scanTilt * p.x.value
  if h : sum.isNaN = false then .number sum h else .notNumber (broken p)

end Position

namespace Workspace

/-- Every id that some block links to. -/
def linkedIds (w : Workspace) : List String := w.blocks.values.flatMap Block.children

/-- The blocks that no block links to, in order of insertion. -/
def unlinked (w : Workspace) : List (String × Block) :=
  let linked := w.linkedIds
  w.blocks.entries.filter fun e => decide (e.1 ∉ linked)

def scannedBy (broken : Position → NotNumber) (w : Workspace) : List (String × Block) :=
  sortByKey (fun e => (e.2.position.scanKeyBy broken).totalRank) w.unlinked

def topBlocks (w : Workspace) : List String := (w.scannedBy Position.brokenSum).map Prod.fst

/-- The rank of a block's type, one past the last rank if it is no entry. -/
def rootRank (c : Catalogue) (b : Block) : Nat :=
  match (c.shape? b.typeId).bind Shape.entryRank with
  | some rank => rank.toNat
  | none => 256

/-- The roots of the program: entries by rank, then every other unlinked block, each from top to
bottom. -/
def programRootsBy (broken : Position → NotNumber) (w : Workspace) (c : Catalogue) : List String :=
  (sortByKey (fun e => rootRank c e.2) (w.scannedBy broken)).map Prod.fst

def programRoots (w : Workspace) (c : Catalogue) : List String :=
  w.programRootsBy Position.brokenSum c

end Workspace

end BlockSketch
