import BlockSketch.Board
import BlockSketch.Toml.Reader

namespace BlockSketch

structure Config where
  board : Option String := none
  output : Option String := none
  deriving DecidableEq, Repr

inductive ConfigError where
  | unreadable
  | unknownBoard (name : String)
  deriving DecidableEq, Repr

def ConfigError.message : ConfigError → String
  | .unreadable => Toml.failureText
  | .unknownBoard name => Board.unknownMessage name

namespace Config

/-- The settings in a table; no other keys are allowed. -/
def ofEntries? (entries : Toml.Entries) : Option Config := do
  guard (entries.all fun e => ["board", "output"].contains e.1)
  return { board := ← Toml.optional? entries "board" Toml.Value.text?
           output := ← Toml.optional? entries "output" Toml.Value.text? }

def board? (c : Config) : Except ConfigError (Option Board) :=
  match c.board with
  | none => .ok none
  | some name =>
    match Board.ofName? name with
    | some b => .ok (some b)
    | none => .error (.unknownBoard name)

def read (source : String) : Except ConfigError Config :=
  match (Toml.read? source).bind ofEntries? with
  | none => .error .unreadable
  | some c => (board? c).map fun _ => c

/-- The file that is looked for when none is named. -/
def defaultFile : String := "blockc.toml"

end Config

end BlockSketch
