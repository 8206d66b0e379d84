import BlockSketch.Case.Suite
import BlockSketch.Catalogue.Toolbox
import BlockSketch.Command.Arguments
import BlockSketch.Command.Help
import BlockSketch.Compile
import BlockSketch.Config
import BlockSketch.Diagnostic.Snippet

namespace BlockSketch

structure Result where
  exit : Nat := 0
  out : String := ""
  err : String := ""
  deriving DecidableEq, Repr

namespace Command

variable {m : Type → Type} [Monad m]

/-- A run that ends early has its result as the error. -/
abbrev Run (m : Type → Type) := ExceptT Result m

def fail {α : Type} (message : String) : Run m α := throw { exit := 1, err := s!"error: {message}\n" }

def readFile (disk : Disk m) (path : String) : Run m String := do
  match ← disk.read path with
  | .ok s => return s
  | .error e => fail ("cannot read '" ++ path ++ "': " ++ e.message)

/-- The file that is named, which must exist, or the default one if it does. -/
def readConfig (disk : Disk m) (named : Option String) : Run m Config := do
  let path := named.getD Config.defaultFile
  if named.isNone && !(← disk.isFile path) then return {}
  match Config.read (← readFile disk path) with
  | .ok c => return c
  | .error e => fail (path ++ ": " ++ e.message)

def readWorkspace (disk : Disk m) (path : String) : Run m Workspace := do
  let source ← readFile disk path
  match load Arduino.catalogue source with
  | .ok w => return w
  | .error e =>
    let report := (e.diagnostics source).map (·.render .error path source)
    throw { exit := 1, err := String.join report }

def program (w : Workspace) : Run m String :=
  match Program.ofWorkspace w with
  | .ok text => return text
  | .error f => fail f.message

/-- The settings are read before the workspace, and arguments win over them. -/
def runGenerate (disk : Disk m) (o : GenerateOptions) : Run m Result := do
  let config ← readConfig disk o.config
  let board ← match o.board, config.board? with
    | some b, _ => pure b
    | none, .ok b => pure (b.getD default)
    | none, .error e => fail e.message
  let code ← program (← readWorkspace disk o.file)
  let text := if o.request then CompileRequest.render ⟨code, board⟩ ++ "\n" else code
  match o.output.or config.output with
  | none => return { out := text }
  | some path =>
    match ← disk.write path text with
    | .ok _ => return {}
    | .error e => fail ("cannot write '" ++ path ++ "': " ++ e.message)

/-- Warnings are reported even if there is a fault. -/
def runCheck (disk : Disk m) (file : String) : Run m Result := do
  let w ← readWorkspace disk file
  let warnings := String.join ((w.identifierWarnings Arduino.catalogue).map fun i =>
    ({ message := i.message : Diagnostic }).render .warning "" "")
  match Program.ofWorkspace w with
  | .error f => return { exit := 1, err := warnings ++ "error: " ++ f.message ++ "\n" }
  | .ok text =>
    let lines := (Text.lines text).length
    return { err := warnings ++ s!"ok: {file} generates {lines} line(s) from {w.size} block(s)\n" }

def runTest (disk : Disk m) (colour : Bool) (o : TestOptions) : m Result := do
  let report ←
    if o.listCategories then Case.list disk o.path
    else Case.run disk ⟨colour⟩ o.path o.categories
  return { exit := if report.passed then 0 else 1, err := report.text }

def versionText : String := "blockc 0.1.0\n"

end Command

def Invocation.run {m : Type → Type} [Monad m] (disk : Disk m) (i : Invocation) : m Result := do
  let ended (r : Except Result Result) : Result :=
    match r with
    | .ok r => r
    | .error r => r
  match i.command with
  | .generate o => return ended (← (Command.runGenerate disk o).run)
  | .check file => return ended (← (Command.runCheck disk file).run)
  | .toolbox => return { out := (Toolbox.json Arduino.catalogue.toolbox).pretty ++ "\n" }
  | .reserved => return { out := String.join (reservedWords.map (· ++ "\n")) }
  | .test o => Command.runTest disk i.colour o
  | .version => return { out := Command.versionText }
  | .help topic => return { out := Command.helpText topic }

def runArguments {m : Type → Type} [Monad m] (disk : Disk m) (args : List String) : m Result :=
  match Command.ofArguments? args with
  | some i => i.run disk
  | none => return { exit := 2, err := "error: invalid arguments\n\nUsage: blockc [OPTIONS] <COMMAND>\n" }

end BlockSketch
