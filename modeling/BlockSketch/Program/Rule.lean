import BlockSketch.Block
import BlockSketch.Program.Plan
import BlockSketch.Shape
import BlockSketch.Sorting
import BlockSketch.Text.Printable

namespace BlockSketch.Program

inductive Rule where
  | setup
  | loop
  | delay
  | pinMode
  | digitalWrite
  | digitalRead
  | analogWrite
  | analogRead
  | serialBegin
  | serialPrint
  | serialPrintln
  | branch
  | countedLoop
  | whileLoop
  | number
  | text
  | boolean
  | operation
  | servoDefine
  | servoAttach
  | servoSweep
  | stripInit
  | stripColor
  deriving DecidableEq, Repr

/-- A statement that is ended by a line feed. -/
def line (code : String) : Plan := .done (.statement (code ++ "\n"))

/-- A head, a body in braces, and a line feed. -/
def braced (head body : String) : String := head ++ " \x7b\n" ++ body ++ "\x7d\n"

/-- The symbol and the order of an operator. -/
def operator? (op : String) : Option (String × Order) :=
  match op with
  | "EQ" => some ("==", .equality)
  | "NEQ" => some ("!=", .equality)
  | "LT" => some ("<", .relational)
  | "LTE" => some ("<=", .relational)
  | "GT" => some (">", .relational)
  | "GTE" => some (">=", .relational)
  | "ADD" => some ("+", .additive)
  | "MINUS" => some ("-", .additive)
  | "MULTIPLY" => some ("*", .multiplicative)
  | "DIVIDE" => some ("/", .multiplicative)
  | "MODULO" => some ("%", .multiplicative)
  | "AND" => some ("&&", .logicalAnd)
  | "OR" => some ("||", .logicalOr)
  | _ => none

def operationPlan : Plan :=
  .field "OP" fun op =>
    match operator? op with
    | none => .refuse "OP" (.notOperator op)
    | some (symbol, order) =>
      .operand "A" order fun a => .operand "B" order fun b =>
        .done (.value (a ++ " " ++ symbol ++ " " ++ b) order)

/-- The last branch, if there is one. -/
def elsePlan (m : Mutation) (code : String) : Plan :=
  if m.hasElse then .body "ELSE" fun b => .done (.statement (code ++ braced "else" b))
  else .done (.statement code)

/-- The next `n` else-if branches, the first of them at `index`, and what comes after. -/
def elseIfPlan (m : Mutation) : Nat → Nat → String → Plan
  | 0, _, code => elsePlan m code
  | n + 1, index, code =>
    .operand (indexedSlot "IF" index) .loosest fun c =>
      .body (indexedSlot "DO" index) fun b =>
        elseIfPlan m n (index + 1) (code ++ braced ("else if (" ++ c ++ ")") b)

def branchPlan (m : Mutation) : Plan :=
  .operand "IF0" .loosest fun c => .body "DO0" fun b =>
    elseIfPlan m m.elseIfCount 1 (braced ("if (" ++ c ++ ")") b)

def countedLoopPlan : Plan :=
  .field "VAR" fun v => .field "FROM" fun a => .field "TO" fun z => .field "INCREMENT" fun step =>
    .body "DO0" fun b =>
      .done (.statement (braced
        ("for (int " ++ v ++ " = " ++ a ++ "; " ++ v ++ " <= " ++ z ++ "; " ++ v ++ " += " ++ step ++
          ")") b))

def whileLoopPlan : Plan :=
  .operand "WHILE0" .loosest fun c => .body "DO0" fun b =>
    .done (.statement (braced ("while (" ++ c ++ ")") b))

def sweepLine (start compare stop change wait : String) : String :=
  "for(pos = " ++ start ++ "; pos " ++ compare ++ " " ++ stop ++ "; pos " ++ change ++
    " 1) \x7b myservo.write(pos); delay(" ++ wait ++ "); \x7d\n"

def servoSweepPlan : Plan :=
  .field "IDEGREE" fun s => .field "FDEGREE" fun e => .field "DELAY" fun d =>
    .done (.statement (sweepLine s "<=" e "+=" d ++ sweepLine e ">=" s "-=" d))

def servoDefinePlan : Plan :=
  .define "include_servo" "#include <Servo.h>"
    (.define "define_servo" "Servo myservo;\nint pos = 0;" (.done (.statement "")))

def stripInitPlan : Plan :=
  .field "PIN" fun pin => .field "NUM_LEDS" fun n =>
    .define "include_neopixel" "#include <Adafruit_NeoPixel.h>"
      (.define "define_strip"
        ("Adafruit_NeoPixel strip(" ++ n ++ ", " ++ pin ++ ", NEO_GRB + NEO_KHZ800);")
        (.done (.statement "strip.begin();\nstrip.show();\n")))

def stripColorPlan : Plan :=
  .field "LED_INDEX" fun i => .field "RED" fun r => .field "GREEN" fun g => .field "BLUE" fun b =>
    line ("strip.setPixelColor(" ++ i ++ ", strip.Color(" ++ r ++ ", " ++ g ++ ", " ++ b ++
      "));\nstrip.show();")

def callPlan (name first second : String) : Plan :=
  .field first fun a => .field second fun b => line (name ++ "(" ++ a ++ ", " ++ b ++ ");")

def printPlan (name : String) : Plan :=
  .field "TEXT" fun s => line (name ++ "(\"" ++ s ++ "\");")

/-- What a rule asks for, given the branches of its block. -/
def Rule.plan (m : Mutation) : Rule → Plan
  | .setup => .body "SETUP" fun b => .done (.statement (braced "void setup()" b ++ "\n"))
  | .loop => .body "LOOP" fun b => .done (.statement (braced "void loop()" b))
  | .delay => .field "DELAY" fun t => line ("delay(" ++ t ++ ");")
  | .pinMode => callPlan "pinMode" "PIN" "MODE"
  | .digitalWrite => callPlan "digitalWrite" "PIN" "STATE"
  | .digitalRead => .field "PIN" fun pin => .done (.atomic ("digitalRead(" ++ pin ++ ")"))
  | .analogWrite => callPlan "analogWrite" "PIN" "VALUE"
  | .analogRead => .field "PIN" fun pin => .done (.atomic ("analogRead(" ++ pin ++ ")"))
  | .serialBegin => .field "BAUD_RATE" fun rate => line ("Serial.begin(" ++ rate ++ ");")
  | .serialPrint => printPlan "Serial.print"
  | .serialPrintln => printPlan "Serial.println"
  | .branch => branchPlan m
  | .countedLoop => countedLoopPlan
  | .whileLoop => whileLoopPlan
  | .number => .field "NUMBER" fun n => .done (.atomic n)
  | .text => .field "TEXT" fun s => .done (.atomic ("\"" ++ s ++ "\""))
  | .boolean => .field "BOOL" fun b => .done (.atomic b)
  | .operation => operationPlan
  | .servoDefine => servoDefinePlan
  | .servoAttach => .field "PIN" fun pin => line ("myservo.attach(" ++ pin ++ ");")
  | .servoSweep => servoSweepPlan
  | .stripInit => stripInitPlan
  | .stripColor => stripColorPlan

/-- Which rule writes the blocks of each type. -/
abbrev Rules := Table Rule

namespace Rules

def builtin : Rules :=
  Table.ofList
    [("arduino_setup", .setup),
      ("arduino_loop", .loop),
      ("arduino_delay", .delay),
      ("arduino_pinMode", .pinMode),
      ("arduino_digitalWrite", .digitalWrite),
      ("arduino_digital_read", .digitalRead),
      ("arduino_analogWrite", .analogWrite),
      ("arduino_analog_read", .analogRead),
      ("arduino_serial_begin", .serialBegin),
      ("arduino_serial_print", .serialPrint),
      ("arduino_serial_println", .serialPrintln),
      ("arduino_if_else", .branch),
      ("arduino_for", .countedLoop),
      ("arduino_while", .whileLoop),
      ("arduino_number", .number),
      ("arduino_text", .text),
      ("arduino_boolean", .boolean),
      ("arduino_compare", .operation),
      ("arduino_arithmetic", .operation),
      ("arduino_logic_operation", .operation),
      ("arduino_servo_define", .servoDefine),
      ("arduino_servo_setup", .servoAttach),
      ("arduino_servo_loop", .servoSweep),
      ("neopixel_init", .stripInit),
      ("neopixel_set_color", .stripColor)]

/-- The types that have a rule, in order of their names. -/
def describe (rules : Rules) : String :=
  "RuleTable \x7b types: [" ++
    String.intercalate ", " ((sortTexts rules.keys).map Text.inQuotes) ++ "] \x7d"

end Rules

end BlockSketch.Program
