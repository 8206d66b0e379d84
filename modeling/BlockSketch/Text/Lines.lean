namespace BlockSketch.Text

/-- Cuts after every `sep`; the pieces joined give the list again. -/
def cutAfter {α : Type} [DecidableEq α] (sep : α) : List α → List (List α)
  | [] => []
  | c :: r =>
    if c = sep then [c] :: cutAfter sep r
    else match cutAfter sep r with
      | [] => [[c]]
      | p :: ps => (c :: p) :: ps

theorem flatten_cutAfter {α : Type} [DecidableEq α] (sep : α) (s : List α) :
    (cutAfter sep s).flatten = s := by
  induction s with
  | nil => rfl
  | cons c r ih =>
    unfold cutAfter
    split
    · simp [ih]
    · split
      · rename_i h
        rw [h] at ih
        simp [← ih]
      · rename_i p ps h
        rw [h] at ih
        simp [← ih]

/-- Drops the line feed that ends a piece, with a carriage return right before it. -/
def stripEnding (piece : List Char) : List Char :=
  match piece.reverse with
  | '\n' :: '\r' :: r => r.reverse
  | '\n' :: r => r.reverse
  | _ => piece

/-- The lines of a text without their endings; a final line feed starts no further line. -/
def lines (s : String) : List String :=
  (cutAfter '\n' s.toList).map fun p => String.ofList (stripEnding p)

/-- Writes `margin` after every line feed that is not the last character. -/
def marginAfterFeeds (margin : List Char) : List Char → List Char
  | [] => []
  | [c] => [c]
  | c :: d :: r =>
    if c = '\n' then c :: (margin ++ marginAfterFeeds margin (d :: r))
    else c :: marginAfterFeeds margin (d :: r)

theorem cutAfter_ne_nil {α : Type} [DecidableEq α] (sep c : α) (r : List α) :
    cutAfter sep (c :: r) ≠ [] := by
  unfold cutAfter
  split
  · simp
  · split <;> simp

/-- A margin after every inner line feed and one more in front are a margin for every piece. -/
theorem append_marginAfterFeeds (margin s : List Char) (h : s ≠ []) :
    margin ++ marginAfterFeeds margin s = (cutAfter '\n' s).flatMap fun piece => margin ++ piece := by
  induction s with
  | nil => exact absurd rfl h
  | cons c r ih =>
    cases r with
    | nil => by_cases hc : c = '\n' <;> simp [marginAfterFeeds, cutAfter, hc]
    | cons d r =>
      have hr := ih (by simp)
      unfold marginAfterFeeds cutAfter
      by_cases hc : c = '\n'
      · simp [hc, hr]
      · rw [if_neg hc, if_neg hc]
        cases hp : cutAfter '\n' (d :: r) with
        | nil => exact absurd hp (cutAfter_ne_nil '\n' d r)
        | cons p ps =>
          rw [hp, List.flatMap_cons, List.append_assoc, List.append_cancel_left_eq] at hr
          simp [hr]

/-- Writes `margin` in front of the first line and of every line that a line feed starts, the empty
one after a final line feed excepted. -/
def indentLines (margin code : String) : String :=
  String.ofList (margin.toList ++ marginAfterFeeds margin.toList code.toList)

end BlockSketch.Text
