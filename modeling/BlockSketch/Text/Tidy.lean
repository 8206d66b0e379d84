import BlockSketch.Text.Blank

namespace BlockSketch.Text

/-- Drops the blanks at the start up to their last line feed, unless that is the first character. -/
def dropLeadingBlankLines (s : List Char) : List Char :=
  let blanks := s.takeWhile isBlank
  if '\n' ∈ blanks.tail then
    takeLastWhile (· ≠ '\n') blanks ++ s.dropWhile isBlank
  else s

/-- Ends the text right after the first line feed of its final run of blanks. -/
def dropTrailingBlankLines (s : List Char) : List Char :=
  let blanks := takeLastWhile isBlank s
  if '\n' ∈ blanks then
    dropLastWhile isBlank s ++ blanks.takeWhile (· ≠ '\n') ++ ['\n']
  else s

def isSpaceOrTab (c : Char) : Bool := c == ' ' || c == '\t'

/-- Drops spaces and tabs that stand right before a line feed. -/
def dropLineEndBlanks : List Char → List Char
  | [] => []
  | c :: r =>
    let rest := dropLineEndBlanks r
    if isSpaceOrTab c && rest.head? == some '\n' then rest else c :: rest

def tidyChars (s : List Char) : List Char :=
  dropLineEndBlanks (dropTrailingBlankLines (dropLeadingBlankLines s))

/-- The final cleaning of a program text. -/
def tidy (code : String) : String := String.ofList (tidyChars code.toList)

end BlockSketch.Text
