import BlockSketch.Case.File
import BlockSketch.Toml.Reader

namespace BlockSketch.Case

structure ExpectedWarning where
  contains : String
  block : Option String := none
  deriving DecidableEq, Repr

structure Expectation where
  description : Option String := none
  output : Option String := none
  contains : List String := []
  error : Option String := none
  loadError : Bool := false
  /-- All warnings in order; they are not looked at if there is no list. -/
  warnings : Option (List ExpectedWarning) := none
  deriving DecidableEq, Repr

/-- A warning is a table, of which other keys are passed over, or a list of its two texts. -/
def ExpectedWarning.ofValue? : Toml.Value → Option ExpectedWarning
  | .table _ entries => do
    let contains ← (Toml.find? "contains" entries).bind Toml.Value.text?
    return ⟨contains, ← Toml.optional? entries "block" Toml.Value.text?⟩
  | .list [contains] => do return ⟨← contains.text?, none⟩
  | .list (contains :: block :: _) => do return ⟨← contains.text?, some (← block.text?)⟩
  | _ => none

namespace Expectation

def keys : List String :=
  ["description", "expect_output", "expect_contains", "expect_error", "expect_load_error",
    "expect_warnings"]

/-- The expectations in a table; no other keys are allowed. -/
def ofEntries? (entries : Toml.Entries) : Option Expectation := do
  guard (entries.all fun e => keys.contains e.1)
  let listOf {α : Type} (f : Toml.Value → Option α) (v : Toml.Value) : Option (List α) := do
    (← v.items?).mapM f
  let contains ← Toml.optional? entries "expect_contains" (listOf Toml.Value.text?)
  let loadError ← Toml.optional? entries "expect_load_error" Toml.Value.flag?
  return { description := ← Toml.optional? entries "description" Toml.Value.text?
           output := ← Toml.optional? entries "expect_output" Toml.Value.text?
           contains := contains.getD []
           error := ← Toml.optional? entries "expect_error" Toml.Value.text?
           loadError := loadError.getD false
           warnings := ← Toml.optional? entries "expect_warnings" (listOf ExpectedWarning.ofValue?) }

end Expectation

inductive ReadError where
  | fence (error : FenceError)
  | header
  deriving DecidableEq, Repr

def ReadError.message : ReadError → String
  | .fence error => error.message
  | .header => Toml.failureText

end BlockSketch.Case

namespace BlockSketch

structure Case where
  expectation : Case.Expectation
  source : String
  deriving DecidableEq, Repr

def Case.read (content : String) : Except Case.ReadError Case :=
  match Case.split content with
  | .error e => .error (.fence e)
  | .ok (header, source) =>
    match (Toml.read? header).bind Case.Expectation.ofEntries? with
    | none => .error .header
    | some expectation => .ok ⟨expectation, source⟩

end BlockSketch
