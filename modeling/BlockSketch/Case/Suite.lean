import BlockSketch.Case.Check
import BlockSketch.Disk
import BlockSketch.Sorting

namespace BlockSketch.Case

/-- How the name of a case file ends. -/
def fileEnding : String := ".test.json"

abbrev Location := List String

def isCaseFile (l : Location) : Bool :=
  match l.getLast? with
  | some name => (Text.withoutEnding? fileEnding name).isSome
  | none => false

/-- A case file belongs to the folder that holds it; the folder of the suite has an empty name. A
backslash in a name counts as a slash. -/
def Location.category (l : Location) : String :=
  String.ofList ((String.intercalate "/" l.dropLast).toList.map fun c => if c = '\\' then '/' else c)

structure Category where
  name : String
  cases : List Location
  deriving DecidableEq, Repr

def Category.label (c : Category) : String := if c.name.isEmpty then "(root)" else c.name

/-- The categories in order of their names, each with its case files in order. -/
def categorize (files : List Location) : List Category :=
  let cases := files.filter isCaseFile
  (sortTexts (cases.map Location.category).eraseDups).map fun name =>
    ⟨name, sortBy (fun a b => decide (¬ b < a)) (cases.filter (·.category == name))⟩

/-- A request, slashes at its ends apart. -/
def requestedName (request : String) : String :=
  String.ofList (Text.dropLastWhile (· = '/') (request.toList.dropWhile (· = '/')))

/-- A request names a category and all those below it. -/
def Category.matchesRequest (c : Category) (request : String) : Bool :=
  let wanted := (requestedName request).toList
  c.name.toList == wanted || (wanted ++ ['/']).isPrefixOf c.name.toList

/-- The categories that are requested; all of them if there is no request. -/
def selected (all : List Category) (requests : List String) : List Category :=
  if requests.isEmpty then all else all.filter fun c => requests.any c.matchesRequest

/-- A warning for every request that names no category. -/
def requestWarnings (all : List Category) (requests : List String) : List String :=
  (requests.filter fun r => !all.any (·.matchesRequest r)).map fun r =>
    "warning: category '" ++ requestedName r ++ "' not found (available: " ++
      String.intercalate ", " (all.map (·.label)) ++ ")"

def Location.path (folder : String) (l : Location) : String :=
  let base := if folder.toList.getLast? = some '/' then folder else folder ++ "/"
  base ++ String.intercalate "/" l

structure Outcome where
  path : String
  label : String
  failure : Option String
  deriving DecidableEq, Repr

def fileLabel (path : String) : String :=
  let name := ((Text.splitAtEach '/' path.toList).getLast?.map String.ofList).getD ""
  (Text.withoutEnding? fileEnding name).getD "?"

/-- The outcome of the case file at `path`, of which `content` was read. -/
def Outcome.of (path : String) (content : Except DiskError String) : Outcome :=
  match content with
  | .error e => ⟨path, fileLabel path, some ("cannot read file: " ++ e.message)⟩
  | .ok s =>
    match Case.read s with
    | .error e => ⟨path, fileLabel path, some ("frontmatter error: " ++ e.message)⟩
    | .ok c =>
      ⟨path, c.expectation.description.getD (fileLabel path), (failure? c).map (·.message)⟩

/-- What a run answers: whether all is well, and lines of text. -/
structure Report where
  passed : Bool
  lines : List String
  deriving DecidableEq, Repr

def Report.text (r : Report) : String := String.join (r.lines.map (· ++ "\n"))

/-- Whether words are marked by colours of a terminal. -/
structure Style where
  colour : Bool
  deriving DecidableEq, Repr

def Style.mark (s : Style) (code text : String) : String :=
  if s.colour then "\x1b[" ++ code ++ "m" ++ text ++ "\x1b[0m" else text

def Style.good (s : Style) (text : String) : String := s.mark "32" text

def Style.bad (s : Style) (text : String) : String := s.mark "31" text

def Style.heading (s : Style) (text : String) : String := s.mark "1" text

def Outcome.line (style : Style) (o : Outcome) : String :=
  let word := if o.failure.isNone then style.good "PASS" else style.bad "FAIL"
  "  " ++ word ++ "  " ++ o.label

def Outcome.details (o : Outcome) : List String :=
  ["", "  --- " ++ o.path ++ " ---"] ++ (Text.lines (o.failure.getD "")).map ("  " ++ ·)

/-- The report of outcomes that stand under headings, or under none. -/
def Report.ofOutcomes (style : Style) (groups : List (Option String × List Outcome)) : Report :=
  let outcomes := groups.flatMap (·.2)
  let failed := outcomes.filter (·.failure.isSome)
  let passed := outcomes.length - failed.length
  let heading (h : Option String) : List String :=
    match h with
    | some h => ["", style.heading h]
    | none => []
  let results := groups.flatMap fun g => heading g.1 ++ g.2.map (Outcome.line style)
  if failed.isEmpty then
    ⟨true, results ++ ["", "test result: " ++ style.good "ok" ++ s!". {passed} passed, 0 failed"]⟩
  else
    ⟨false, results ++ ["", "failures:"] ++ failed.flatMap Outcome.details ++
      ["", "test result: " ++ style.bad "FAILED" ++
        s!". {passed} passed, {failed.length} failed (of {outcomes.length})"]⟩

def noFiles (path : String) : String := "no " ++ fileEnding ++ " files found in " ++ path

section

variable {m : Type → Type} [Monad m]

def run (disk : Disk m) (style : Style) (path : String) (requests : List String) : m Report := do
  let outcome (p : String) : m Outcome := return Outcome.of p (← disk.read p)
  if ← disk.isFile path then
    return Report.ofOutcomes style [(none, [← outcome path])]
  let all := categorize (← disk.filesBelow path)
  if all.isEmpty then return ⟨false, [noFiles path]⟩
  let chosen := selected all requests
  let warnings := requestWarnings all requests
  if chosen.isEmpty then return ⟨false, warnings ++ ["no matching categories found"]⟩
  let groups ← chosen.mapM fun c => do
    return (some c.label, ← c.cases.mapM fun l => outcome (l.path path))
  let report := Report.ofOutcomes style groups
  return ⟨report.passed, warnings ++ report.lines⟩

def list (disk : Disk m) (path : String) : m Report := do
  if ← disk.isFile path then return ⟨true, ["(single file, no categories)"]⟩
  let all := categorize (← disk.filesBelow path)
  if all.isEmpty then return ⟨true, [noFiles path]⟩
  return ⟨true, "available categories:" ::
    all.map fun c => "  " ++ c.label ++ s!" ({c.cases.length} tests)"⟩

end

end BlockSketch.Case
