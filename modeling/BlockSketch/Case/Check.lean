import BlockSketch.Case.Expectation
import BlockSketch.Catalogue.Arduino
import BlockSketch.Document.Load
import BlockSketch.Program
import BlockSketch.Text.Part
import BlockSketch.Workspace.Lint

namespace BlockSketch.Case

/-- An expectation that is not met. -/
inductive Failure where
  | loaded
  | notLoaded (messages : List String)
  | otherFault (expected actual : String)
  | noFault (expected : String)
  | fault (actual : String)
  | otherOutput (expected actual : String)
  | missingPart (part program : String)
  | warningCount (expected : Nat) (actual : List String)
  | otherWarning (index : Nat) (expected actual : String)
  | otherBlock (index : Nat) (expected actual : String)
  deriving DecidableEq, Repr

def shifted (s : String) : String :=
  String.intercalate "\n" ((Text.lines s).map ("    " ++ ·))

def Failure.message : Failure → String
  | .loaded => "expected load error, but the workspace loaded"
  | .notLoaded messages => "unexpected load error: " ++ String.intercalate "; " messages
  | .otherFault expected actual => s!"expected error containing \"{expected}\", got: {actual}"
  | .noFault expected => s!"expected error containing \"{expected}\", but generation succeeded"
  | .fault actual => "unexpected generation error: " ++ actual
  | .otherOutput expected actual =>
    "output mismatch\n  expected:\n" ++ shifted expected ++ "\n  actual:\n" ++ shifted actual
  | .missingPart part program =>
    s!"expected output containing \"{part}\", got:\n" ++ shifted program
  | .warningCount expected actual =>
    s!"expected {expected} warning(s), got {actual.length}\n  actual warnings:\n" ++
      if actual.isEmpty then "    (none)"
      else String.intercalate "\n" (actual.map ("  - " ++ ·))
  | .otherWarning index expected actual =>
    s!"warning[{index}]: expected message containing \"{expected}\", got: {actual}"
  | .otherBlock index expected actual =>
    s!"warning[{index}]: expected on block '{expected}', but it is on '{actual}'"

/-- The output comes first, then the parts in order. -/
def outputFailure? (e : Expectation) (program : String) : Option Failure :=
  let actual := Text.trim program
  match e.output with
  | some expected =>
    if Text.trim expected = actual then missing? actual
    else some (.otherOutput (Text.trim expected) actual)
  | none => missing? actual
where
  missing? (actual : String) : Option Failure :=
    (e.contains.find? fun part => !Text.contains program part).map (.missingPart · actual)

def programFailure? (e : Expectation) (result : Except Program.Fault String) : Option Failure :=
  match e.error, result with
  | some expected, .error f =>
    if Text.contains f.message expected then none else some (.otherFault expected f.message)
  | some expected, .ok _ => some (.noFault expected)
  | none, .error f => some (.fault f.message)
  | none, .ok program => outputFailure? e program

/-- Compares warnings one by one, counted from `index`. -/
def pairFailure? (index : Nat) : List IdentifierWarning → List ExpectedWarning → Option Failure
  | w :: ws, e :: es =>
    if !Text.contains w.message e.contains then some (.otherWarning index e.contains w.message)
    else match e.block with
      | some block =>
        if w.block = block then pairFailure? (index + 1) ws es
        else some (.otherBlock index block w.block)
      | none => pairFailure? (index + 1) ws es
  | _, _ => none

def warningFailure? (actual : List IdentifierWarning) (expected : List ExpectedWarning) :
    Option Failure :=
  if actual.length = expected.length then pairFailure? 0 actual expected
  else some (.warningCount expected.length (actual.map (·.message)))

/-- The failure of a case, if it fails. An expected load error is the only thing that is looked at;
warnings are looked at last, also after an expected fault. -/
def failure? (c : Case) : Option Failure :=
  match load Arduino.catalogue c.source with
  | .error e =>
    if c.expectation.loadError then none
    else some (.notLoaded ((e.diagnostics c.source).map (·.message)))
  | .ok w =>
    if c.expectation.loadError then some .loaded
    else match programFailure? c.expectation (Program.ofWorkspace w) with
      | some f => some f
      | none =>
        c.expectation.warnings.bind (warningFailure? (w.identifierWarnings Arduino.catalogue))

end BlockSketch.Case
