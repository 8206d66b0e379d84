import BlockSketch.Catalogue.Arduino
import BlockSketch.Program.Walk
import BlockSketch.Text.Tidy
import BlockSketch.Workspace.Roots

namespace BlockSketch.Program

/-- Declarations in order of first definition, one after another. -/
def joinDefinitions (definitions : Table String) : String :=
  String.intercalate "\n" definitions.values

/-- The texts of the roots, the empty ones left out, tidied as one. -/
def joinRoots (texts : List String) : String :=
  Text.tidy (String.intercalate "\n" (texts.filter fun s => !s.isEmpty))

/-- The declarations, a blank line and the body; without declarations the body alone. -/
def assemble (definitions : Table String) (body : String) : String :=
  if definitions.isEmpty then body else joinDefinitions definitions ++ "\n\n" ++ body

/-- One pass over the roots, with its trail. -/
def pass (c : Context) (depth : Nat) (roots : List String) :
    Except Halt (List String) × Trail :=
  (rootTexts c depth roots).run.run {}

/-- A depth that is never used up. -/
def Context.depth (c : Context) : Nat := c.workspace.size + 1

/-- The program text for the roots, or the first fault. A walk deeper than the number of blocks would
have met one of them twice. -/
def generate (c : Context) (roots : List String) : Except Fault String :=
  match pass c c.depth roots with
  | (.ok texts, trail) => .ok (assemble trail.definitions (joinRoots texts))
  | (.error (.fault f), _) => .error f
  | (.error (.tooDeep id), _) => .error (.cyclic id)

def generateAll (c : Context) : Except Fault String :=
  generate c (c.workspace.programRoots c.catalogue)

def ofWorkspace (w : Workspace) : Except Fault String :=
  generateAll ⟨Arduino.catalogue, Rules.builtin, w⟩

/-- What was published after each change of the graph. -/
structure Session where
  passes : Nat := 0
  published : List (Except Fault String) := []

/-- Runs a pass over the whole workspace, and publishes what it answers. -/
def Session.graphChanged (s : Session) (c : Context) : Except Fault String × Session :=
  let outcome := generateAll c
  (outcome, ⟨s.passes + 1, s.published ++ [outcome]⟩)

end BlockSketch.Program
