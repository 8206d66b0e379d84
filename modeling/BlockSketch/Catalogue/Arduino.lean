import BlockSketch.Catalogue

namespace BlockSketch.Arduino

def categories : List (String × Nat) :=
  [("Basics", 230), ("I/O", 160), ("Serial", 60), ("Control", 210), ("Math", 230), ("Servo", 290),
    ("NeoPixel", 300)]

def step (label category : String) (colour : Nat) (fields : List FieldSpec) : Shape where
  output := .statement
  fields := fields
  presentation := { label := label, colour := colour, category := some category }

def operand (label category : String) (colour : Nat) (fields : List FieldSpec) : Shape :=
  { step label category colour fields with output := .value }

/-- A routine of the program, with one slot for its body. -/
def routine (label slot tooltip : String) (rank : UInt8) : Shape where
  output := .statement
  statementSlots := [slot]
  entryRank := some rank
  presentation :=
    { label := label, colour := 230, tooltip := some tooltip, category := some "Basics" }

/-- An operand with a choice of operator between two others. -/
def operation (colour : Nat) (operators : List (String × String)) (absent : String) : Shape :=
  { operand "%1 %2 %3" "Math" colour [.labelledChoice "OP" operators] with
    valueSlots := [⟨"A", absent⟩, ⟨"B", absent⟩] }

def basics : List (String × Shape) :=
  [("arduino_setup", routine "Setup" "SETUP" "Run once at startup" 0),
    ("arduino_loop", routine "Loop" "LOOP" "Run repeatedly" 1),
    ("arduino_delay", step "Delay %1 ms" "Basics" 160 [.numberFrom "DELAY" 1000 0])]

def pins : List (String × Shape) :=
  [("arduino_pinMode",
      step "pinMode %1 %2" "I/O" 160 [.number "PIN" 13, .choice "MODE" ["OUTPUT", "INPUT"]]),
    ("arduino_digitalWrite",
      step "digitalWrite %1 %2" "I/O" 160 [.number "PIN" 13, .choice "STATE" ["HIGH", "LOW"]]),
    ("arduino_digital_read", operand "digitalRead %1" "I/O" 160 [.number "PIN" 2]),
    ("arduino_analogWrite",
      step "analogWrite %1 Value %2" "I/O" 160 [.number "PIN" 3, .number "VALUE" 255]),
    ("arduino_analog_read", operand "analogRead %1" "I/O" 160 [.number "PIN" 0])]

def serial : List (String × Shape) :=
  [("arduino_serial_begin", step "Serial.begin %1" "Serial" 60 [.number "BAUD_RATE" 9600]),
    ("arduino_serial_print", step "Serial.print %1" "Serial" 60 [.text "TEXT" "Hello"]),
    ("arduino_serial_println", step "Serial.println %1" "Serial" 60 [.text "TEXT" "Hello"])]

def control : List (String × Shape) :=
  [("arduino_if_else",
      { step "if %1" "Control" 210 [] with
        valueSlots := [⟨"IF0", "false"⟩]
        statementSlots := ["DO0"]
        arity := some ⟨"IF", "DO", "ELSE", "false"⟩ }),
    ("arduino_for",
      { step "for int %1 = %2 to %3 step %4" "Control" 210
          [.variableName "VAR" "i", .number "FROM" 0, .number "TO" 10, .number "INCREMENT" 1] with
        statementSlots := ["DO0"] }),
    ("arduino_while",
      { step "while %1" "Control" 210 [] with
        valueSlots := [⟨"WHILE0", "false"⟩]
        statementSlots := ["DO0"] })]

def operands : List (String × Shape) :=
  [("arduino_number", operand "%1" "Math" 230 [.number "NUMBER" 0]),
    ("arduino_text", operand "\"%1\"" "Math" 160 [.text "TEXT" ""]),
    ("arduino_boolean", operand "%1" "Math" 210 [.choice "BOOL" ["true", "false"]]),
    ("arduino_compare",
      operation 210
        [("=", "EQ"), ("≠", "NEQ"), ("<", "LT"), ("≤", "LTE"), (">", "GT"), ("≥", "GTE")] "0"),
    ("arduino_arithmetic",
      operation 230
        [("+", "ADD"), ("-", "MINUS"), ("×", "MULTIPLY"), ("÷", "DIVIDE"), ("%", "MODULO")] "0"),
    ("arduino_logic_operation", operation 210 [("and", "AND"), ("or", "OR")] "false")]

def servo : List (String × Shape) :=
  [("arduino_servo_define", step "Servo Define (Pos 0)" "Servo" 290 []),
    ("arduino_servo_setup", step "Servo Attach Pin %1" "Servo" 290 [.number "PIN" 9]),
    ("arduino_servo_loop",
      step "Servo Sweep Start %1 End %2 Speed %3" "Servo" 290
        [.number "IDEGREE" 0, .number "FDEGREE" 180, .number "DELAY" 15])]

def neoPixel : List (String × Shape) :=
  [("neopixel_init",
      step "NeoPixel Init Pin %1 LEDs %2" "NeoPixel" 300 [.number "PIN" 6, .number "NUM_LEDS" 16]),
    ("neopixel_set_color",
      step "Set Pixel %1 R %2 G %3 B %4" "NeoPixel" 300
        [.number "LED_INDEX" 0, .number "RED" 255, .number "GREEN" 255, .number "BLUE" 255])]

def types : List (String × Shape) :=
  basics ++ pins ++ serial ++ control ++ operands ++ servo ++ neoPixel

/-- Adds the built-in categories and types to a catalogue. -/
def extend (c : Catalogue) : Catalogue := (c.defineCategories categories).defineTypes types

def catalogue : Catalogue := extend .empty

end BlockSketch.Arduino
