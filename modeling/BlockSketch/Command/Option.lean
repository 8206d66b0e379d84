namespace BlockSketch.Command

inductive Arity where
  /-- No value, and given at most once. -/
  | switch
  /-- No value, and given any number of times. -/
  | counter
  /-- A value, and given at most once. -/
  | single
  /-- A value each, and given any number of times. -/
  | many
  deriving DecidableEq, Repr

def Arity.takesValue : Arity → Bool
  | .switch => false
  | .counter => false
  | .single => true
  | .many => true

def Arity.repeats : Arity → Bool
  | .switch => false
  | .counter => true
  | .single => false
  | .many => true

structure OptionSpec where
  long : String
  short : Option Char := none
  arity : Arity := .switch
  accepts : String → Bool := fun _ => true
  final : Bool := false

/-- What was read of the arguments: options by their long names with their values, and words. -/
structure Parsed where
  options : List (String × Option String) := []
  words : List String := []
  deriving DecidableEq, Repr

namespace Parsed

def has (p : Parsed) (long : String) : Bool := p.options.any fun o => o.1 == long

def values (p : Parsed) (long : String) : List String :=
  (p.options.filter fun o => o.1 == long).filterMap (·.2)

def value? (p : Parsed) (long : String) : Option String := (p.values long).head?

end Parsed

inductive Step where
  | more (p : Parsed) (rest : List String)
  | done (p : Parsed)
  | refused

/-- Adds an option, if it may be given here and with this value. -/
def record (spec : OptionSpec) (value : Option String) (p : Parsed) : Option Parsed :=
  if p.has spec.long && !spec.arity.repeats then none
  else if (value.map spec.accepts).getD true then
    some { p with options := p.options ++ [(spec.long, value)] }
  else none

/-- Whether an argument can be the value of the option before it: one that starts with a dash is an
option itself, a dash alone excepted. -/
def isValue (arg : String) : Bool :=
  match arg.toList with
  | '-' :: _ :: _ => false
  | _ => true

/-- Takes an option and its value, which is attached or the next argument. -/
def takeOption (spec : OptionSpec) (attached : Option String) (p : Parsed) (rest : List String) :
    Step :=
  let next (value : Option String) (rest : List String) : Step :=
    match record spec value p with
    | none => .refused
    | some p' => if spec.final then .done p' else .more p' rest
  if spec.arity.takesValue then
    match attached, rest with
    | some v, _ => next (some v) rest
    | none, v :: rest' => if isValue v then next (some v) rest' else .refused
    | none, [] => .refused
  else
    match attached with
    | some _ => .refused
    | none => next none rest

/-- Short options behind one dash. What follows an option with a value is its value. -/
def takeCluster (specs : List OptionSpec) : List Char → Parsed → List String → Step
  | [], p, rest => .more p rest
  | c :: cs, p, rest =>
    match specs.find? fun s => s.short = some c with
    | none => .refused
    | some spec =>
      if spec.arity.takesValue then
        match cs with
        | [] => takeOption spec none p rest
        | '=' :: v => takeOption spec (some (String.ofList v)) p rest
        | v => takeOption spec (some (String.ofList v)) p rest
      else
        match takeOption spec none p rest with
        | .more p' _ => takeCluster specs cs p' rest
        | s => s

/-- Takes the option that an argument in front starts with, if it is one. -/
def takeArgument (specs : List OptionSpec) (arg : String) (p : Parsed) (rest : List String) :
    Option Step :=
  match arg.toList with
  | '-' :: '-' :: body =>
    let name := String.ofList (body.takeWhile (· ≠ '='))
    let attached := match body.dropWhile (· ≠ '=') with
      | _ :: v => some (String.ofList v)
      | [] => none
    match specs.find? fun s => s.long = name with
    | none => some .refused
    | some spec => some (takeOption spec attached p rest)
  | '-' :: c :: cs => some (takeCluster specs (c :: cs) p rest)
  | _ => none

/-- What is done with an argument that is no option. -/
inductive WordRule where
  | stop
  | take (limit : Nat) (accepts : String → Bool)

def takeWord (limit : Nat) (accepts : String → Bool) (p : Parsed) (word : String) : Option Parsed :=
  if p.words.length < limit && accepts word then some { p with words := p.words ++ [word] }
  else none

/-- Reads options, and words as the rule says; after `--` there are only words. `bound` is the number
of arguments that may be taken. -/
def readOptions (specs : List OptionSpec) (rule : WordRule) : Nat → Parsed → List String → Step
  | _, p, [] => .more p []
  | 0, _, _ => .refused
  | n + 1, p, arg :: rest =>
    if arg = "--" then
      match rule with
      | .stop => .refused
      | .take limit accepts =>
        match rest.foldlM (takeWord limit accepts) p with
        | some p' => .more p' []
        | none => .refused
    else
      match takeArgument specs arg p rest with
      | some (.more p' rest') => readOptions specs rule n p' rest'
      | some s => s
      | none =>
        match rule with
        | .stop => .more p (arg :: rest)
        | .take limit accepts =>
          match takeWord limit accepts p arg with
          | some p' => readOptions specs rule n p' rest
          | none => .refused

end BlockSketch.Command
