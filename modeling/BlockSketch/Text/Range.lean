namespace BlockSketch.Text

/-- Whether a number lies in one of the ranges, their ends included. -/
def inRanges (ranges : List (Nat × Nat)) (n : Nat) : Bool :=
  ranges.any fun r => r.1 ≤ n && n ≤ r.2

end BlockSketch.Text
