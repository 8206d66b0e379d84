import BlockSketch.Text.Lines

namespace BlockSketch.Text

def bytes (s : String) : List UInt8 := s.toUTF8.data.toList

def byteCount (s : List Char) : Nat := s.foldl (fun n c => n + c.utf8Size) 0

def feed : UInt8 := 10

/-- A line counted from one, and the number of bytes from its start. -/
structure Place where
  line : Nat
  column : Nat
  deriving DecidableEq, Repr

/-- The place after the first `offset` bytes. -/
def Place.ofOffset (source : List UInt8) (offset : Nat) : Place where
  line := 1 + (source.take offset).count feed
  column := ((source.take offset).reverse.takeWhile (· ≠ feed)).length

/-- The offset of a place whose column is counted from one, be it inside the source or not. -/
def Place.reach (source : List UInt8) (p : Place) : Nat :=
  ((cutAfter feed source).take (p.line - 1)).flatten.length + (p.column - 1)

/-- The byte that a place points at, at most the end of the source. Offsets are words of 64 bits. -/
def Place.toOffset (source : List UInt8) (p : Place) : Nat :=
  min (p.reach source % UInt64.size) source.length

structure Span where
  start : Nat
  stop : Nat
  deriving DecidableEq, Repr

/-- The byte at a place, or nothing at the end of the source. -/
def Place.span (source : List UInt8) (p : Place) : Span :=
  let start := p.toOffset source
  ⟨start, min (start + 1) source.length⟩

end BlockSketch.Text
