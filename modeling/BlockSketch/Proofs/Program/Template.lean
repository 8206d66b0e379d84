import BlockSketch.Proofs.Program.Outcome
import Mathlib.Data.List.Nodup

namespace BlockSketch.Program

def fieldOf (shape : Shape) (b : Block) (name : String) : String :=
  match readField shape b name with
  | .ok s => s
  | .error _ => ""

/-- The first of the named fields that has no text, and why. -/
def fieldFault? (shape : Shape) (b : Block) : List String → Option (String × FieldFault)
  | [] => none
  | name :: r =>
    match readField shape b name with
    | .ok _ => fieldFault? shape b r
    | .error why => some (name, why)

/-- One branch of an if block: its head, its condition and its body. -/
def branchArm (head : String) (text : Socket → String) (i : Nat) : String :=
  braced (head ++ " (" ++ text (.value (indexedSlot "IF" i)) ++ ")")
    (text (.statement (indexedSlot "DO" i)))

def armSockets (i : Nat) : List Socket :=
  [.value (indexedSlot "IF" i), .statement (indexedSlot "DO" i)]

theorem eq_of_mem_armSockets {s : Socket} {i j : Nat} (hi : s ∈ armSockets i)
    (hj : s ∈ armSockets j) : i = j := by
  simp only [armSockets, List.mem_cons, List.not_mem_nil, or_false] at hi hj
  rcases hi with rfl | rfl
  · rcases hj with h | h <;> simp only [Socket.value.injEq, reduceCtorEq] at h
    exact indexedSlot_inj h
  · rcases hj with h | h <;> simp only [Socket.statement.injEq, reduceCtorEq] at h
    exact indexedSlot_inj h

theorem else_ne_indexedSlot (i : Nat) : "ELSE" ≠ indexedSlot "DO" i := by
  intro h
  have hl := congrArg String.toList h
  simp [indexedSlot] at hl

theorem else_not_mem_armSockets (i : Nat) : .statement "ELSE" ∉ armSockets i := by
  simp [armSockets, else_ne_indexedSlot i]

theorem nodup_flatMap_armSockets (indices : List Nat) (h : indices.Nodup) :
    (indices.flatMap armSockets).Nodup := by
  induction indices with
  | nil => simp
  | cons i r ih =>
    rw [List.nodup_cons] at h
    rw [List.flatMap_cons, List.nodup_append]
    refine ⟨by simp [armSockets], ih h.2, ?_⟩
    intro s hs s' hs' he
    obtain ⟨j, hj, hs'⟩ := List.mem_flatMap.mp hs'
    exact h.1 (eq_of_mem_armSockets hs (he ▸ hs') ▸ hj)

def Rendered.output : Rendered → Output
  | .statement _ => .statement
  | .value _ _ => .value

namespace Rule

def output : Rule → Output
  | .digitalRead | .analogRead | .number | .text | .boolean | .operation => .value
  | _ => .statement

def fields : Rule → List String
  | .setup | .loop | .branch | .whileLoop | .servoDefine => []
  | .delay => ["DELAY"]
  | .pinMode => ["PIN", "MODE"]
  | .digitalWrite => ["PIN", "STATE"]
  | .analogWrite => ["PIN", "VALUE"]
  | .digitalRead | .analogRead | .servoAttach => ["PIN"]
  | .serialBegin => ["BAUD_RATE"]
  | .serialPrint | .serialPrintln | .text => ["TEXT"]
  | .countedLoop => ["VAR", "FROM", "TO", "INCREMENT"]
  | .number => ["NUMBER"]
  | .boolean => ["BOOL"]
  | .operation => ["OP"]
  | .servoSweep => ["IDEGREE", "FDEGREE", "DELAY"]
  | .stripInit => ["PIN", "NUM_LEDS"]
  | .stripColor => ["LED_INDEX", "RED", "GREEN", "BLUE"]

def sockets (m : Mutation) : Rule → List Socket
  | .setup => [.statement "SETUP"]
  | .loop => [.statement "LOOP"]
  | .branch =>
    armSockets 0 ++ (List.range' 1 m.elseIfCount).flatMap armSockets ++
      if m.hasElse then [.statement "ELSE"] else []
  | .countedLoop => [.statement "DO0"]
  | .whileLoop => [.value "WHILE0", .statement "DO0"]
  | .operation => [.value "A", .value "B"]
  | _ => []

def outer (field : String → String) : Rule → Order
  | .operation => ((operator? (field "OP")).map Prod.snd).getD .loosest
  | _ => .loosest

def hoisted (field : String → String) : Rule → List (String × String)
  | .servoDefine =>
    [("include_servo", "#include <Servo.h>"), ("define_servo", "Servo myservo;\nint pos = 0;")]
  | .stripInit =>
    [("include_neopixel", "#include <Adafruit_NeoPixel.h>"),
      ("define_strip", "Adafruit_NeoPixel strip(" ++ field "NUM_LEDS" ++ ", " ++ field "PIN" ++
        ", NEO_GRB + NEO_KHZ800);")]
  | _ => []

/-- The text of a block, given the texts of its fields and of its sockets. -/
def render (m : Mutation) (field : String → String) (text : Socket → String) : Rule → Rendered
  | .setup => .statement (braced "void setup()" (text (.statement "SETUP")) ++ "\n")
  | .loop => .statement (braced "void loop()" (text (.statement "LOOP")))
  | .delay => .statement ("delay(" ++ field "DELAY" ++ ");\n")
  | .pinMode => .statement ("pinMode(" ++ field "PIN" ++ ", " ++ field "MODE" ++ ");\n")
  | .digitalWrite => .statement ("digitalWrite(" ++ field "PIN" ++ ", " ++ field "STATE" ++ ");\n")
  | .digitalRead => .value ("digitalRead(" ++ field "PIN" ++ ")") .atomic
  | .analogWrite => .statement ("analogWrite(" ++ field "PIN" ++ ", " ++ field "VALUE" ++ ");\n")
  | .analogRead => .value ("analogRead(" ++ field "PIN" ++ ")") .atomic
  | .serialBegin => .statement ("Serial.begin(" ++ field "BAUD_RATE" ++ ");\n")
  | .serialPrint => .statement ("Serial.print(\"" ++ field "TEXT" ++ "\");\n")
  | .serialPrintln => .statement ("Serial.println(\"" ++ field "TEXT" ++ "\");\n")
  | .branch =>
    .statement (branchArm "if" text 0 ++
      String.join ((List.range' 1 m.elseIfCount).map (branchArm "else if" text)) ++
      if m.hasElse then braced "else" (text (.statement "ELSE")) else "")
  | .countedLoop =>
    .statement (braced
      ("for (int " ++ field "VAR" ++ " = " ++ field "FROM" ++ "; " ++ field "VAR" ++ " <= " ++
        field "TO" ++ "; " ++ field "VAR" ++ " += " ++ field "INCREMENT" ++ ")")
      (text (.statement "DO0")))
  | .whileLoop =>
    .statement (braced ("while (" ++ text (.value "WHILE0") ++ ")") (text (.statement "DO0")))
  | .number => .value (field "NUMBER") .atomic
  | .text => .value ("\"" ++ field "TEXT" ++ "\"") .atomic
  | .boolean => .value (field "BOOL") .atomic
  | .operation =>
    match operator? (field "OP") with
    | some (symbol, order) =>
      .value (text (.value "A") ++ " " ++ symbol ++ " " ++ text (.value "B")) order
    | none => .value "" .atomic
  | .servoDefine => .statement ""
  | .servoAttach => .statement ("myservo.attach(" ++ field "PIN" ++ ");\n")
  | .servoSweep =>
    .statement (sweepLine (field "IDEGREE") "<=" (field "FDEGREE") "+=" (field "DELAY") ++
      sweepLine (field "FDEGREE") ">=" (field "IDEGREE") "-=" (field "DELAY"))
  | .stripInit => .statement "strip.begin();\nstrip.show();\n"
  | .stripColor =>
    .statement ("strip.setPixelColor(" ++ field "LED_INDEX" ++ ", strip.Color(" ++ field "RED" ++
      ", " ++ field "GREEN" ++ ", " ++ field "BLUE" ++ "));\nstrip.show();\n")

theorem output_render (m : Mutation) (field : String → String) (text : Socket → String)
    (rule : Rule) : (rule.render m field text).output = rule.output := by
  cases rule with
  | operation => cases h : operator? (field "OP") <;> simp [render, output, Rendered.output, h]
  | _ => rfl

theorem next_not_mem_sockets (m : Mutation) (rule : Rule) : .next ∉ rule.sockets m := by
  cases rule <;> simp [sockets, armSockets]

theorem nodup_sockets (m : Mutation) (rule : Rule) : (rule.sockets m).Nodup := by
  cases rule with
  | branch =>
    have harms : armSockets 0 ++ (List.range' 1 m.elseIfCount).flatMap armSockets =
        (List.range' 0 (m.elseIfCount + 1)).flatMap armSockets := rfl
    rw [sockets, harms, List.nodup_append]
    refine ⟨nodup_flatMap_armSockets _ List.nodup_range', by split <;> simp, ?_⟩
    intro s hs s' hs' he
    subst he
    obtain ⟨i, -, hi⟩ := List.mem_flatMap.mp hs
    split at hs'
    · rw [List.mem_singleton] at hs'
      exact else_not_mem_armSockets i (hs' ▸ hi)
    · simp at hs'
  | _ => simp [sockets]

/-- The first field that keeps a rule from writing a block: one without a text, or an operator that
there is not. -/
def fault? (shape : Shape) (b : Block) (rule : Rule) : Option (String × FieldFault) :=
  match fieldFault? shape b rule.fields with
  | some fault => some fault
  | none =>
    if rule = .operation ∧ operator? (fieldOf shape b "OP") = none then
      some ("OP", .notOperator (fieldOf shape b "OP"))
    else none

end Rule

/-- Goes on only if all the named fields have a text. -/
def needFields (shape : Shape) (b : Block) (names : List String) (k : Walk Rendered) :
    Walk Rendered :=
  match fieldFault? shape b names with
  | some (name, why) => fail (.malformedField b.id name why)
  | none => k

def hoist : List (String × String) → Walk Unit
  | [] => return
  | (key, text) :: r => do
    modify fun t => { t with definitions := t.definitions.insert key text }
    hoist r

def readSocket (operand : String → Order → Walk String) (body : String → Walk String)
    (outer : Order) : Socket → Walk String
  | .value slot => operand slot outer
  | .statement slot => body slot
  | .next => return ""

/-- Reads sockets in order. A socket that is not among them has the text `absent`. -/
def readSockets (read : Socket → Walk String) (absent : Socket → String) :
    List Socket → Walk (Socket → String)
  | [] => return absent
  | s :: r => do
    let text ← read s
    let others ← readSockets read absent r
    return fun s' => if s' = s then text else others s'

/-- Writes a block by the template of a rule. -/
def Rule.fill (shape : Shape) (b : Block) (operand : String → Order → Walk String)
    (body : String → Walk String) (absent : Socket → String) (rule : Rule) : Walk Rendered := do
  hoist (rule.hoisted (fieldOf shape b))
  let text ← readSockets (readSocket operand body (rule.outer (fieldOf shape b))) absent
    (rule.sockets b.mutation)
  return rule.render b.mutation (fieldOf shape b) text

section Plans

variable (shape : Shape) (b : Block) (operand : String → Order → Walk String)
  (body : String → Walk String) (absent : Socket → String)

theorem needFields_nil (k : Walk Rendered) : needFields shape b [] k = k := rfl

theorem needFields_needFields (name : String) (r : List String) (k : Walk Rendered) :
    needFields shape b [name] (needFields shape b r k) = needFields shape b (name :: r) k := by
  cases h : readField shape b name <;> simp [needFields, fieldFault?, h]

theorem run_field (name : String) (k : String → Plan) :
    (Plan.field name k).run shape b operand body =
      needFields shape b [name] ((k (fieldOf shape b name)).run shape b operand body) := by
  cases h : readField shape b name <;> simp [Plan.run, needFields, fieldFault?, fieldOf, h]

/-- The plan of a rule that makes no choice while it reads. -/
theorem run_plain_plan (rule : Rule) (ho : rule ≠ .operation) (hb : rule ≠ .branch) :
    (rule.plan b.mutation).run shape b operand body =
      needFields shape b rule.fields (rule.fill shape b operand body absent) := by
  cases rule with
  | operation => exact absurd rfl ho
  | branch => exact absurd rfl hb
  | setup | loop | whileLoop | servoDefine =>
    simp [Rule.plan, Plan.run, whileLoopPlan, servoDefinePlan, Rule.fields, needFields_nil,
      Rule.fill, Rule.hoisted, hoist, Rule.sockets, readSockets, readSocket, Rule.outer, Rule.render]
  | countedLoop | stripInit =>
    simp [Rule.plan, run_field, Plan.run, countedLoopPlan, stripInitPlan, Rule.fields,
      needFields_needFields, Rule.fill, Rule.hoisted, hoist, Rule.sockets, readSockets, readSocket,
      Rule.render]
  | _ =>
    simp [Rule.plan, run_field, Plan.run, callPlan, printPlan, line, servoSweepPlan,
      stripColorPlan, Rendered.atomic, Rule.fields, needFields_needFields, Rule.fill, Rule.hoisted,
      hoist, Rule.sockets, readSockets, Rule.render, String.append_assoc]

theorem run_operationPlan :
    operationPlan.run shape b operand body =
      needFields shape b ["OP"]
        (if operator? (fieldOf shape b "OP") = none then
          fail (.malformedField b.id "OP" (.notOperator (fieldOf shape b "OP")))
        else Rule.operation.fill shape b operand body absent) := by
  rw [operationPlan, run_field]
  cases h : operator? (fieldOf shape b "OP") with
  | none => simp [Plan.run]
  | some o =>
    simp [Plan.run, Rule.fill, Rule.hoisted, hoist, Rule.sockets, readSockets, readSocket,
      Rule.outer, Rule.render, h]

theorem armsText_congr {text text' : Socket → String} (index n : Nat)
    (h : ∀ i, index ≤ i → ∀ s ∈ armSockets i, text s = text' s) :
    (List.range' index n).map (branchArm "else if" text) =
      (List.range' index n).map (branchArm "else if" text') := by
  apply List.map_congr_left
  intro i hi
  have hi : index ≤ i := (List.mem_range'_1.mp hi).1
  have hc := h i hi (.value (indexedSlot "IF" i)) (by simp [armSockets])
  have hd := h i hi (.statement (indexedSlot "DO" i)) (by simp [armSockets])
  simp only [branchArm, hc, hd]

theorem ahead_of_arm (index : Nat) (condition arm : String) (text : Socket → String) :
    ∀ i, index + 1 ≤ i → ∀ s ∈ armSockets i,
      (if s = .value (indexedSlot "IF" index) then condition
        else if s = .statement (indexedSlot "DO" index) then arm else text s) = text s := by
  intro i hi s hs
  have hne : i ≠ index := by omega
  simp only [armSockets, List.mem_cons, List.not_mem_nil, or_false] at hs
  rcases hs with rfl | rfl
  · have h : indexedSlot "IF" i ≠ indexedSlot "IF" index := fun h => hne (indexedSlot_inj h)
    simp [h]
  · have h : indexedSlot "DO" i ≠ indexedSlot "DO" index := fun h => hne (indexedSlot_inj h)
    simp [h]

theorem run_elseIfPlan (m : Mutation) (n index : Nat) (code : String) :
    (elseIfPlan m n index code).run shape b operand body = do
      let text ← readSockets (readSocket operand body .loosest) absent
        ((List.range' index n).flatMap armSockets ++
          if m.hasElse then [.statement "ELSE"] else [])
      return .statement (code ++ String.join ((List.range' index n).map (branchArm "else if" text)) ++
        if m.hasElse then braced "else" (text (.statement "ELSE")) else "") := by
  induction n generalizing index code with
  | zero =>
    cases hm : m.hasElse <;>
      simp [elseIfPlan, elsePlan, hm, Plan.run, readSockets, readSocket]
  | succ n ih =>
    simp only [elseIfPlan, Plan.run, ih, List.range'_succ, List.flatMap_cons, armSockets,
      List.cons_append, List.nil_append, readSockets, readSocket, bind_assoc, pure_bind,
      List.map_cons, String.join_cons]
    refine bind_congr fun condition => bind_congr fun arm => bind_congr fun text => ?_
    -- The sockets of this branch are not read again by the ones that follow.
    have hrest := armsText_congr (index + 1) n
      (ahead_of_arm index condition arm text)
    have helse := else_ne_indexedSlot index
    simp [hrest, helse, branchArm, String.append_assoc]

theorem run_branchPlan :
    (branchPlan b.mutation).run shape b operand body =
      Rule.branch.fill shape b operand body absent := by
  have h0 : "IF0" = indexedSlot "IF" 0 ∧ "DO0" = indexedSlot "DO" 0 := by decide
  simp only [branchPlan, Plan.run, run_elseIfPlan shape b operand body absent, Rule.fill,
    Rule.hoisted, hoist, Rule.sockets, Rule.outer, armSockets, List.cons_append, List.nil_append,
    readSockets, readSocket, bind_assoc, pure_bind, h0.1, h0.2]
  refine bind_congr fun condition => bind_congr fun arm => bind_congr fun text => ?_
  have hrest := armsText_congr 1 b.mutation.elseIfCount (ahead_of_arm 0 condition arm text)
  have helse := else_ne_indexedSlot 0
  simp [Rule.render, hrest, helse, branchArm, String.append_assoc]

/-- Every plan is followed by checking the fields of its rule, and then by its template. -/
theorem run_plan (rule : Rule) :
    (rule.plan b.mutation).run shape b operand body =
      match rule.fault? shape b with
      | some (name, why) => fail (.malformedField b.id name why)
      | none => rule.fill shape b operand body absent := by
  by_cases ho : rule = .operation
  · subst ho
    have hf : Rule.operation.fields = ["OP"] := rfl
    rw [Rule.plan, run_operationPlan shape b operand body absent, needFields, Rule.fault?, hf]
    cases fieldFault? shape b ["OP"] with
    | some fault => rfl
    | none => by_cases hn : operator? (fieldOf shape b "OP") = none <;> simp [hn]
  · have hf : rule.fault? shape b = fieldFault? shape b rule.fields := by
      unfold Rule.fault?
      cases fieldFault? shape b rule.fields <;> simp [ho]
    rw [hf]
    by_cases hb : rule = .branch
    · subst hb
      exact run_branchPlan shape b operand body absent
    · exact run_plain_plan shape b operand body absent rule ho hb

end Plans

end BlockSketch.Program
