import BlockSketch.Diagnostic
import BlockSketch.Text.Blank
import BlockSketch.Text.Width

namespace BlockSketch

namespace Snippet

/-- The rows of a source, of which the last may be empty. -/
def rows (source : List Char) : List (List Char) :=
  let pieces := Text.cutAfter '\n' source
  if source.isEmpty ∨ source.getLast? = some '\n' then pieces ++ [[]] else pieces

def shown (row : List Char) : List Char :=
  Text.dropLastWhile (fun c => c == '\n' || c == '\r' || c.toNat == 0) row

/-- A character of a row with its bytes, and with the columns that it takes. -/
structure Cell where
  char : Char
  start : Nat
  stop : Nat
  width : Nat

/-- The cells of a row from a byte and a column on. -/
def cells (start column : Nat) : List Char → List Cell
  | [] => []
  | c :: r =>
    let width := if c = '\t' then Text.toTabStop column else Text.width c
    ⟨c, start, start + c.utf8Size, width⟩ :: cells (start + c.utf8Size) (column + width) r

def rowText (row : List Cell) : String :=
  String.ofList (row.flatMap fun c => if c.char = '\t' then List.replicate c.width ' ' else [c.char])

/-- Carets below the bytes from `start` to `stop`. There is one more cell after the row, for what is
at its end. -/
def carets (row : List Cell) (bytes start stop : Nat) : String :=
  let afterRow : Cell := ⟨' ', bytes, bytes + 1, 1⟩
  String.ofList ((row ++ [afterRow]).flatMap fun c =>
    if max start c.start < min stop c.stop then List.replicate c.width '^'
    else if c.start < stop then List.replicate c.width ' '
    else [])

/-- How many characters end within the first `bytes` bytes. -/
def charsWithin (bytes : Nat) (row : List Cell) : Nat :=
  (row.takeWhile fun c => c.stop ≤ bytes).length

/-- The number of a row, and the margin of lines without one. -/
structure Gutter where
  width : Nat

def Gutter.margin (g : Gutter) : String := String.ofList (List.replicate (g.width + 1) ' ')

def Gutter.numbered (g : Gutter) (n : Nat) : String :=
  let digits := (Nat.repr n).toList
  String.ofList (List.replicate (g.width - digits.length) ' ' ++ digits ++ [' '])

/-- The lines that show a span: a row with carets. A span that holds a line ending starts its row, and
is shown by a bracket on the left of this row and the next. -/
def render (file source : String) (span : Text.Span) : List String :=
  let bytes := Text.bytes source
  let first := Text.Place.ofOffset bytes span.start
  let last := Text.Place.ofOffset bytes span.stop
  let gutter : Gutter := ⟨(Nat.repr last.line).length⟩
  let row (p : Text.Place) : List Char := (rows source.toList).getD (p.line - 1) []
  let top := cells 0 0 (shown (row first))
  let column := 1 + charsWithin first.column (cells 0 0 (row first))
  let locus := gutter.margin ++ s!"┌─ {file}:{first.line}:{column}"
  if first.line = last.line then
    let stop := max last.column (first.column + 1)
    [ locus,
      gutter.margin ++ "│",
      gutter.numbered first.line ++ "│ " ++ rowText top,
      gutter.margin ++ "│ " ++
        carets top (Text.byteCount (shown (row first))) first.column stop ]
  else
    let bottom := cells 0 0 (shown (row last))
    let reach := (bottom.takeWhile fun c => c.start < last.column).foldr (·.width + ·) 0
    [ locus,
      gutter.margin ++ "│  ",
      gutter.numbered first.line ++ "│ ╭ " ++ rowText top,
      gutter.numbered last.line ++ "│ │ " ++ rowText bottom,
      gutter.margin ++ "│ ╰" ++ String.ofList (List.replicate reach '─') ++ "^" ]

/-- A note below the snippet; further lines of it are moved in. -/
def note (text : String) : List String :=
  match Text.lines text with
  | [] => []
  | first :: r => (" = " ++ first) :: r.map ("   " ++ ·)

end Snippet

inductive Severity where
  | error
  | warning
  deriving DecidableEq, Repr

def Severity.label : Severity → String
  | .error => "error"
  | .warning => "warning"

/-- The report of a diagnostic, with an empty line at its end. -/
def Diagnostic.render (d : Diagnostic) (severity : Severity) (file source : String) : String :=
  let shown := match d.span with
    | some span => Snippet.render file source span
    | none => []
  String.join (((severity.label ++ ": " ++ d.message) :: shown ++ d.notes.flatMap Snippet.note ++ [""])
    |>.map (· ++ "\n"))

end BlockSketch
