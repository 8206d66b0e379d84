import BlockSketch.Text.Place

namespace BlockSketch

structure Diagnostic where
  message : String
  span : Option Text.Span := none
  notes : List String := []
  deriving DecidableEq, Repr

end BlockSketch
