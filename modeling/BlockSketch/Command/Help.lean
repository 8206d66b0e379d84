import BlockSketch.Command

namespace BlockSketch.Command

/-- Entries with a text each, all texts in one column. -/
def columns (entries : List (String × String)) : List String :=
  let width := (entries.map fun e => e.1.length).foldl max 0
  entries.map fun e =>
    "  " ++ e.1 ++ String.ofList (List.replicate (width - e.1.length + 2) ' ') ++ e.2

/-- A title with the lines below it and an empty line in front, or nothing. -/
def helpSection (title : String) (entries : List (String × String)) : List String :=
  if entries.isEmpty then [] else "" :: (title ++ ":") :: columns entries

def about : Verb → String
  | .generate => "Generate the sketch for a workspace file"
  | .check => "Load and generate without writing output; report identifier warnings"
  | .toolbox => "Print the block toolbox as JSON"
  | .reserved => "Print the reserved identifiers, one per line"
  | .test => "Run .test.json case files"
  | .help => "Print this message or the help of the given subcommand(s)"

def noColorEntry : String × String := ("    --no-color", "Disable colored error output")

def verboseEntry : String × String :=
  ("-v, --verbose...", "Increase log verbosity (-v info, -vv debug, -vvv trace)")

def helpEntry : String × String := ("-h, --help", "Print help")

def usage : Verb → String
  | .generate => "[OPTIONS] <FILE>"
  | .check => "[OPTIONS] <FILE>"
  | .toolbox => "[OPTIONS]"
  | .reserved => "[OPTIONS]"
  | .test => "[OPTIONS] <PATH>"
  | .help => "[COMMAND]..."

def wordEntries : Verb → List (String × String)
  | .generate => [("<FILE>", "Workspace JSON file")]
  | .check => [("<FILE>", "Workspace JSON file")]
  | .toolbox => []
  | .reserved => []
  | .test => [("<PATH>", "Path to a .test.json file or a directory containing them")]
  | .help => [("[COMMAND]...", "Print help for the subcommand(s)")]

def optionEntries : Verb → List (String × String)
  | .generate =>
    [noColorEntry,
      ("-o, --output <OUTPUT>", "Write the result here instead of stdout"),
      ("    --board <BOARD>", "Target board (uno, nano, mega or an arduino:avr FQBN)"),
      verboseEntry,
      ("    --request", "Emit a compile-service request body instead of bare code"),
      ("    --config <CONFIG>", "Project config file (defaults to ./blockc.toml when present)"),
      helpEntry]
  | .test =>
    [("-c, --category <CATEGORY>",
        "Run only tests in these categories (subfolder names). Repeatable"),
      noColorEntry,
      ("    --list-categories", "List available categories and exit"),
      verboseEntry,
      helpEntry]
  | .help => []
  | _ => [noColorEntry, verboseEntry, helpEntry]

def helpOn (v : Verb) : List String :=
  [about v, "", "Usage: blockc " ++ v.name ++ " " ++ usage v] ++
    helpSection "Arguments" (wordEntries v) ++ helpSection "Options" (optionEntries v)

def overview : List String :=
  ["Block workspace to Arduino sketch compiler", "", "Usage: blockc [OPTIONS] <COMMAND>"] ++
    helpSection "Commands" (Verb.all.map fun v => (v.name, about v)) ++
    helpSection "Options" [noColorEntry, verboseEntry, helpEntry, ("-V, --version", "Print version")]

def helpText (topic : Option Verb) : String :=
  let lines := match topic with
    | none => overview
    | some v => helpOn v
  String.join (lines.map (· ++ "\n"))

end BlockSketch.Command
