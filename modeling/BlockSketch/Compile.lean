import BlockSketch.Board
import BlockSketch.Json.Reader

namespace BlockSketch

structure CompileRequest where
  code : String
  board : Board
  deriving DecidableEq, Repr

namespace CompileRequest

def json (r : CompileRequest) : Json.Value :=
  .object [("code", .text r.code), ("board", .text r.board.fullName)]

def render (r : CompileRequest) : String := r.json.pretty

def boardNamed (name : String) : Json.Reader Board :=
  match Board.all.find? (·.fullName == name) with
  | some b => return b
  | none => Json.mistyped (.unknownName name (Board.all.map (·.fullName)))

/-- A board by its full name, alone or as the only key of an object, with the value null. -/
def readBoard : Json.Reader Board := do
  match ← Json.start with
  | '"' => boardNamed (← Json.quoted)
  | '\x7b' =>
    Json.advance
    let board ← boardNamed (← Json.text)
    Json.colon
    Json.null
    match ← Json.peek? with
    | some '\x7d' =>
      Json.advance
      return board
    | _ => Json.failNext .expectedValue
  | _ => Json.failNext .expectedValue

/-- A request while its members are read. -/
structure Draft where
  code : Option String := none
  board : Option Board := none

def Draft.request (d : Draft) : Except String CompileRequest :=
  match d.code, d.board with
  | some code, some board => .ok ⟨code, board⟩
  | none, _ => .error "code"
  | _, none => .error "board"

def form : Json.Form Draft CompileRequest :=
  ⟨"CompileRequest",
    [Json.member "code" Json.text fun s d => { d with code := some s },
      Json.member "board" readBoard fun b d => { d with board := some b }],
    {}, Draft.request⟩

def reader (bound : Nat) : Json.Reader CompileRequest := Json.record bound form

def read (source : String) : Except Json.Failure CompileRequest := Json.readAll reader source

end CompileRequest

structure CompileResponse where
  hex : Option String := none
  error : Option String := none
  deriving DecidableEq, Repr

namespace CompileResponse

def optionalJson (s : Option String) : Json.Value :=
  match s with
  | some s => .text s
  | none => .null

def json (r : CompileResponse) : Json.Value :=
  .object [("hex", optionalJson r.hex), ("error", optionalJson r.error)]

def form : Json.Form CompileResponse CompileResponse :=
  .lenient "CompileResponse"
    [Json.member "hex" (Json.optional Json.text) fun s r => { r with hex := s },
      Json.member "error" (Json.optional Json.text) fun s r => { r with error := s }] {}

def reader (bound : Nat) : Json.Reader CompileResponse := Json.record bound form

def read (source : String) : Except Json.Failure CompileResponse := Json.readAll reader source

/-- The compiled image. An error wins over an image, and having neither is an error. -/
def result (r : CompileResponse) : Except String String :=
  match r.error, r.hex with
  | some error, _ => .error error
  | none, some hex => .ok hex
  | none, none => .error "compile service returned no output"

end CompileResponse

end BlockSketch
