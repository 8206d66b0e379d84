namespace BlockSketch.Text

def occursIn (part : List Char) : List Char → Bool
  | [] => part.isEmpty
  | c :: r => part.isPrefixOf (c :: r) || occursIn part r

def contains (s part : String) : Bool := occursIn part.toList s.toList

theorem occursIn_iff (part s : List Char) : occursIn part s = true ↔ part <:+: s := by
  induction s with
  | nil => simp [occursIn]
  | cons c r ih =>
    simp only [occursIn, Bool.or_eq_true, List.isPrefixOf_iff_prefix, ih]
    exact List.infix_cons_iff.symm

/-- The pieces between the characters `sep`, the empty ones too. -/
def splitAtEach (sep : Char) : List Char → List (List Char)
  | [] => [[]]
  | c :: r =>
    if c = sep then [] :: splitAtEach sep r
    else match splitAtEach sep r with
      | [] => [[c]]
      | p :: ps => (c :: p) :: ps

/-- What is left of a text without `ending`, if it ends so. -/
def withoutEnding? (ending s : String) : Option String :=
  let e := ending.toList.reverse
  let t := s.toList.reverse
  if e.isPrefixOf t then some (String.ofList (t.drop e.length).reverse) else none

end BlockSketch.Text
