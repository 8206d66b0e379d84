import BlockSketch.Command
import BlockSketch.Command.Option

namespace BlockSketch.Command

def helpOption : OptionSpec := { long := "help", short := some 'h', final := true }

/-- Options that can stand before a command as well as after it. -/
def commonOptions : List OptionSpec :=
  [ { long := "no-color" },
    { long := "verbose", short := some 'v', arity := .counter },
    helpOption ]

def topOptions : List OptionSpec :=
  commonOptions ++ [{ long := "version", short := some 'V', final := true }]

/-- A path is any text but the empty one. -/
def isPath (s : String) : Bool := !s.isEmpty

def generateOptions : List OptionSpec :=
  commonOptions ++
    [ { long := "output", short := some 'o', arity := .single, accepts := isPath },
      { long := "board", arity := .single, accepts := fun s => (Board.ofName? s).isSome },
      { long := "request" },
      { long := "config", arity := .single, accepts := isPath } ]

def testOptions : List OptionSpec :=
  commonOptions ++
    [ { long := "category", short := some 'c', arity := .many },
      { long := "list-categories" } ]

/-- How a command is called: its options, how many paths it takes, and the command that they make. -/
structure CallForm where
  options : List OptionSpec := commonOptions
  paths : Nat := 0
  make : Parsed → Option Command

/-- How each command is called; help has no options, and takes names. -/
def callForm? : Verb → Option CallForm
  | .generate => some
    { options := generateOptions
      paths := 1
      make := fun p => p.words.head?.map fun file => .generate
        { file := file
          output := p.value? "output"
          board := (p.value? "board").bind Board.ofName?
          request := p.has "request"
          config := p.value? "config" } }
  | .check => some { paths := 1, make := fun p => p.words.head?.map .check }
  | .toolbox => some { make := fun _ => some .toolbox }
  | .reserved => some { make := fun _ => some .reserved }
  | .test => some
    { options := testOptions
      paths := 1
      make := fun p => p.words.head?.map fun path => .test
        { path := path
          categories := p.values "category"
          listCategories := p.has "list-categories" } }
  | .help => none

/-- Everything after the word for help is the name of a command; no command has commands below it. -/
def helpOn? : List String → Option Command
  | [] => some (.help none)
  | [name] => (Verb.ofName? name).map fun v => .help (some v)
  | _ => none

def ofVerb? (verb : Verb) (top : Parsed) (rest : List String) : Option Invocation :=
  match callForm? verb with
  | none => (helpOn? rest).map fun command => { command := command }
  | some form =>
    match readOptions form.options (.take form.paths isPath) rest.length {} rest with
    | .refused => none
    | .done _ => some { command := .help (some verb) }
    | .more p _ =>
      (form.make p).map fun command =>
        { command := command, colour := !(top.has "no-color" || p.has "no-color") }

/-- Reads the arguments of a call; none if they ask for nothing. -/
def ofArguments? (args : List String) : Option Invocation :=
  match readOptions topOptions .stop args.length {} args with
  | .refused => none
  | .done p => some { command := if p.has "help" then .help none else .version }
  | .more _ [] => none
  | .more top (name :: rest) => (Verb.ofName? name).bind fun verb => ofVerb? verb top rest

end BlockSketch.Command
