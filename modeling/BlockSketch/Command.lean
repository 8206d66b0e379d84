import BlockSketch.Board

namespace BlockSketch

structure GenerateOptions where
  file : String
  output : Option String := none
  board : Option Board := none
  request : Bool := false
  config : Option String := none
  deriving DecidableEq, Repr

structure TestOptions where
  path : String
  categories : List String := []
  listCategories : Bool := false
  deriving DecidableEq, Repr

/-- The commands by name. -/
inductive Verb where
  | generate
  | check
  | toolbox
  | reserved
  | test
  | help
  deriving DecidableEq, Repr

namespace Verb

def all : List Verb := [.generate, .check, .toolbox, .reserved, .test, .help]

def name : Verb → String
  | .generate => "generate"
  | .check => "check"
  | .toolbox => "toolbox"
  | .reserved => "reserved"
  | .test => "test"
  | .help => "help"

def ofName? (name : String) : Option Verb := all.find? fun v => v.name == name

@[simp] theorem ofName?_name (v : Verb) : ofName? v.name = some v := by
  cases v <;> decide

end Verb

inductive Command where
  | generate (options : GenerateOptions)
  | check (file : String)
  | toolbox
  | reserved
  | test (options : TestOptions)
  | version
  | help (topic : Option Verb)
  deriving DecidableEq, Repr

structure Invocation where
  command : Command
  colour : Bool := true
  deriving DecidableEq, Repr

end BlockSketch
