import BlockSketch.Text.Blank

namespace BlockSketch.Case

inductive FenceError where
  | noOpening
  | noClosing
  deriving DecidableEq, Repr

def FenceError.message : FenceError → String
  | .noOpening => "missing opening --- frontmatter delimiter"
  | .noClosing => "missing closing --- frontmatter delimiter"

def dropEnding : List Char → List Char
  | '\n' :: r => r
  | '\r' :: '\n' :: r => r
  | s => s

/-- Cuts at the first line that starts with a fence, the line feed in front of it left out. -/
def cutAtFence : List Char → Option (List Char × List Char)
  | '\n' :: '-' :: '-' :: '-' :: r => some ([], r)
  | c :: r => (cutAtFence r).map fun p => (c :: p.1, p.2)
  | [] => none

/-- The header and the source of a case file. Marks of byte order in front are no part of it. -/
def split (content : String) : Except FenceError (String × String) :=
  match content.toList.dropWhile (· = '\uFEFF') with
  | '-' :: '-' :: '-' :: r =>
    match cutAtFence (dropEnding r) with
    | none => .error .noClosing
    | some (header, rest) =>
      .ok (String.ofList (Text.dropLastWhile (· = '\r') header), String.ofList (dropEnding rest))
  | _ => .error .noOpening

def compose (header : List String) (source : String) : String :=
  String.join ((["---"] ++ header ++ ["---"]).map (· ++ "\n")) ++ source

end BlockSketch.Case
