import BlockSketch.Proofs.Expression.Lexer
import BlockSketch.Proofs.Program.Builtin
import BlockSketch.Proofs.Program.Fields
import BlockSketch.Proofs.Program.Refinement

namespace BlockSketch.Expression

open Program (Order)

namespace Operator

def ofChoice? : String → Option Operator
  | "EQ" => some equal
  | "NEQ" => some notEqual
  | "LT" => some less
  | "LTE" => some atMost
  | "GT" => some greater
  | "GTE" => some atLeast
  | "ADD" => some add
  | "MINUS" => some subtract
  | "MULTIPLY" => some multiply
  | "DIVIDE" => some divide
  | "MODULO" => some remainder
  | "AND" => some both
  | "OR" => some either
  | _ => none

def order : Operator → Order
  | multiply | divide | remainder => .multiplicative
  | add | subtract => .additive
  | less | atMost | greater | atLeast => .relational
  | equal | notEqual => .equality
  | both => .logicalAnd
  | either => .logicalOr

theorem operator?_eq (s : String) :
    Program.operator? s = (ofChoice? s).map fun op => (op.symbol, op.order) := by
  unfold Program.operator? ofChoice?
  split <;> simp_all [symbol, order]

end Operator

namespace Expr

def level : Expr → Nat
  | binary op _ _ => op.level
  | _ => 0

def order : Expr → Order
  | binary op _ _ => op.order
  | _ => .atomic

/-- Every text in the expression can stand in quotes as it is. -/
def Quotable : Expr → Prop
  | text s => Expression.Quotable s
  | binary _ a b => a.Quotable ∧ b.Quotable
  | _ => True

theorem level_le (e : Expr) : e.level ≤ 6 := by
  cases e with
  | binary op a b => exact op.level_le
  | _ => exact Nat.zero_le 6

end Expr

theorem needsParens_order (op : Operator) (e : Expr) :
    op.order.needsParens e.order = decide (op.level ≤ e.level) := by
  cases e with
  | binary op' a b => cases op <;> cases op' <;> rfl
  | _ => cases op <;> rfl

theorem ReadsAt.wrap {op : Operator} {k : Nat} {code : String} {e : Expr} (hop : op.level = k + 1)
    (h : ReadsAt e.level code e) : ReadsAt k (op.order.wrap code e.order) e := by
  unfold Order.wrap
  rw [needsParens_order]
  by_cases hl : op.level ≤ e.level
  · simp only [hl, decide_true, if_true]
    exact (h.mono e.level_le).parens.mono (Nat.zero_le k)
  · simp only [hl, decide_false, Bool.false_eq_true, if_false]
    exact h.mono (by omega)

end BlockSketch.Expression

namespace BlockSketch.Program

open Expression

def literal (s : String) : Expr :=
  if s = truthWord true then .truth true
  else if s = truthWord false then .truth false
  else .number s

/-- The expression that a block stands for, given the texts of its fields and its operands. -/
def Rule.expr? (field : String → String) (operand : String → Expr) : Rule → Option Expr
  | .number => some (.number (field "NUMBER"))
  | .text => some (.text (field "TEXT"))
  | .boolean => some (.truth (field "BOOL" == truthWord true))
  | .digitalRead => some (.read .digital (field "PIN"))
  | .analogRead => some (.read .analog (field "PIN"))
  | .operation =>
    (Operator.ofChoice? (field "OP")).map fun op => .binary op (operand "A") (operand "B")
  | _ => none

mutual

/-- The expression that an operand stands for. An absent operand, and one that is not enabled, stands
for none, and the block around it takes the literal of the slot instead. -/
def Tree.expr? (c : Context) : Tree → Option Expr
  | .leaf => none
  | .node _ b inputs _ =>
    if b.enabled then
      match c.catalogue.shape? b.typeId, c.rules.get? b.typeId with
      | some shape, some rule =>
        rule.expr? (fieldOf shape b) fun slot =>
          (inputs.expr? c slot).getD (literal ((shape.defaultLiteral? slot).getD ""))
      | _, _ => none
    else none

def Inputs.expr? (c : Context) : Inputs → String → Option Expr
  | .nil, _ => none
  | .cons s t others, slot => if .value slot = s then t.expr? c else others.expr? c slot

end

def takesNumber (shape : Shape) (name : String) : Bool :=
  match (shape.field? name).map FieldSpec.kind with
  | some (.number _) => true
  | _ => false

def optionsOf (shape : Shape) (name : String) : List String :=
  match (shape.field? name).map FieldSpec.kind with
  | some (.choice options) => options.map Prod.snd
  | _ => []

/-- What a rule of operands reads are parts of expressions: numbers, truth values and texts, and
operands of which an absent one is a number or a truth value as well. -/
def Rule.suits (shape : Shape) : Rule → Bool
  | .number => takesNumber shape "NUMBER"
  | .digitalRead | .analogRead => takesNumber shape "PIN"
  | .boolean => optionsOf shape "BOOL" == [truthWord true, truthWord false]
  | .text => true
  | .operation =>
    ["A", "B"].all fun slot => shape.defaultLiteral? slot ∈ [some "0", some (truthWord false)]
  | _ => false

theorem suits_of_value {typeId : String} {shape : Shape} {rule : Rule}
    (hs : Arduino.catalogue.shape? typeId = some shape) (hr : Rules.builtin.get? typeId = some rule)
    (hv : shape.output = .value) : rule.suits shape = true := by
  have hall : ∀ e ∈ Arduino.types, e.2.output = .value →
      ((Rules.builtin.get? e.1).all fun rule => rule.suits e.2) = true := by
    decide
  simpa [hr] using hall _ (Arduino.mem_types hs) hv

section Fields

variable {shape : Shape} {b : Block} {name : String}

theorem lex_number (hf : HasField shape b name) (ht : takesNumber shape name = true) :
    ∃ ts, lex (fieldOf shape b name) = some ts ∧ Signed ts (fieldOf shape b name) := by
  have hr := readField_eq_fieldOf hf
  obtain ⟨spec, hs, -⟩ := hf
  cases hk : spec.kind with
  | number min =>
    simp only [readField, hs, hk] at hr
    obtain ⟨n, -, hfinite, -, htext⟩ := fieldText_number hr
    obtain ⟨s, hnumeral, hsigned⟩ := Decimal.plainText_of_isFinite hfinite
    rw [htext]
    exact lex_signed hnumeral hsigned
  | text => simp [takesNumber, hs, hk] at ht
  | choice options => simp [takesNumber, hs, hk] at ht

theorem fieldOf_mem_optionsOf (hf : HasField shape b name) (ho : optionsOf shape name ≠ []) :
    fieldOf shape b name ∈ optionsOf shape name := by
  have hr := readField_eq_fieldOf hf
  obtain ⟨spec, hs, -⟩ := hf
  cases hk : spec.kind with
  | choice options =>
    simp only [readField, hs, hk] at hr
    simpa only [optionsOf, hs, hk, Option.map_some] using (fieldText_choice hr).2
  | number min => simp [optionsOf, hs, hk] at ho
  | text => simp [optionsOf, hs, hk] at ho

end Fields

/-- What is written for an operand reads as the expression that the operand stands for, if its texts
can stand in quotes; nothing is written for an operand that stands for nothing. -/
inductive Prints : Option (String × Order) → Option Expr → Prop where
  | absent : Prints none none
  | present {code : String} {e : Expr} (h : e.Quotable → ReadsAt e.level code e) :
    Prints (some (code, e.order)) (some e)

theorem Prints.value {code : String} (e : Expr) (hne : code ≠ "")
    (h : e.Quotable → ReadsAt e.level code e) :
    Prints (operandText? (some (.value code e.order))) (some e) := by
  simpa [operandText?, hne] using Prints.present h

theorem ne_empty_of_signed {code : String} {ts : List Token} (hl : lex code = some ts)
    (hs : Signed ts code) : code ≠ "" := by
  rintro rfl
  have hnil : lex "" = some [] := rfl
  rw [hnil, Option.some.injEq] at hl
  subst hl
  cases hs

/-- An operand in its slot reads as an expression that binds tighter than the operator around it. -/
theorem readsAt_slotText {shape : Shape} (chain : Socket → String)
    {operand : Socket → Option (String × Order)} {slot : String} {e : Option Expr} {op : Operator}
    {k : Nat} (hop : op.level = k + 1) (h : Prints (operand (.value slot)) e)
    (hd : shape.defaultLiteral? slot ∈ [some "0", some (truthWord false)])
    (hq : (e.getD (literal ((shape.defaultLiteral? slot).getD ""))).Quotable) :
    ReadsAt k (slotText shape op.order chain operand (.value slot))
      (e.getD (literal ((shape.defaultLiteral? slot).getD ""))) := by
  generalize hp : operand (.value slot) = written at h
  cases h with
  | present h =>
    simp only [slotText, hp, Option.getD_some] at hq ⊢
    exact .wrap hop (h hq)
  | absent =>
    simp only [slotText, hp, Option.getD_none]
    simp only [List.mem_cons, List.not_mem_nil, or_false] at hd
    rcases hd with hd | hd
    · rw [hd]
      have hzero : ReadsAt 0 "0" (.number "0") := ⟨[.number "0"], by decide, .number (.plain "0")⟩
      exact hzero.mono (Nat.zero_le k)
    · rw [hd]
      exact (ReadsAt.truth false).mono (Nat.zero_le k)

theorem Rule.prints {shape : Shape} {b : Block} {rule : Rule} (hs : rule.suits shape = true)
    (hf : rule.fault? shape b = none) (chain : Socket → String)
    {operand : Socket → Option (String × Order)} {expr : String → Option Expr}
    (h : ∀ slot, Prints (operand (.value slot)) (expr slot)) :
    Prints
      (operandText? (some (rule.render b.mutation (fieldOf shape b)
        (slotText shape (rule.outer (fieldOf shape b)) chain operand))))
      (rule.expr? (fieldOf shape b) fun slot =>
        (expr slot).getD (literal ((shape.defaultLiteral? slot).getD ""))) := by
  obtain ⟨hfields, hop⟩ := (Rule.fault?_eq_none_iff shape b rule).mp hf
  cases rule with
  | number =>
    obtain ⟨ts, hl, hsigned⟩ := lex_number (hfields "NUMBER" (by decide)) hs
    exact .value (.number _) (ne_empty_of_signed hl hsigned) fun _ => ⟨ts, hl, .number hsigned⟩
  | text => exact .value (.text _) (by simp) fun hq => .quoted hq
  | boolean =>
    have ho : optionsOf shape "BOOL" = [truthWord true, truthWord false] := by
      simpa [Rule.suits] using hs
    have hm := fieldOf_mem_optionsOf (hfields "BOOL" (by decide)) (by simp [ho])
    obtain ⟨v, hv⟩ : ∃ v, fieldOf shape b "BOOL" = truthWord v := by
      rw [ho] at hm
      simp only [List.mem_cons, List.not_mem_nil, or_false] at hm
      exact hm.elim (fun h => ⟨true, h⟩) fun h => ⟨false, h⟩
    have he : (truthWord v == truthWord true) = v := by cases v <;> decide
    simp only [Rule.render, Rule.expr?, hv, he]
    exact .value (.truth v) (by cases v <;> decide) fun _ => .truth v
  | digitalRead =>
    obtain ⟨ts, hl, hsigned⟩ := lex_number (hfields "PIN" (by decide)) hs
    exact .value (.read .digital _) (by simp) fun _ => readsAt_read .digital hl hsigned
  | analogRead =>
    obtain ⟨ts, hl, hsigned⟩ := lex_number (hfields "PIN" (by decide)) hs
    exact .value (.read .analog _) (by simp) fun _ => readsAt_read .analog hl hsigned
  | operation =>
    obtain ⟨⟨symbol, order⟩, ho⟩ := Option.isSome_iff_exists.mp (hop rfl)
    rw [Operator.operator?_eq] at ho
    obtain ⟨op, hchoice, heq⟩ := Option.map_eq_some_iff.mp ho
    have hfound : operator? (fieldOf shape b "OP") = some (op.symbol, op.order) := by
      rw [Operator.operator?_eq, hchoice]
      rfl
    obtain ⟨k, hk⟩ : ∃ k, op.level = k + 1 := ⟨op.level - 1, by have := op.level_pos; omega⟩
    simp only [Rule.suits, List.all_cons, List.all_nil, Bool.and_true, Bool.and_eq_true,
      decide_eq_true_eq] at hs
    simp only [Rule.render, Rule.expr?, Rule.outer, hfound, hchoice, Option.map_some,
      Option.getD_some]
    -- Both operands are written as something tighter than the operator. On the left the grammar asks
    -- for less.
    refine .value (.binary op _ _) (by simp) fun hq => ?_
    have ha := readsAt_slotText chain hk (h "A") hs.1 hq.1
    have hb := readsAt_slotText chain hk (h "B") hs.2 hq.2
    have hlevel : (Expr.binary op ((expr "A").getD (literal ((shape.defaultLiteral? "A").getD "")))
        ((expr "B").getD (literal ((shape.defaultLiteral? "B").getD "")))).level = k + 1 := hk
    rw [hlevel]
    exact .binary hk (ha.mono (Nat.le_succ k)) hb
  | _ => simp [Rule.suits] at hs

theorem Rule.isSome_expr? {shape : Shape} {b : Block} {rule : Rule} (hs : rule.suits shape = true)
    (hf : rule.fault? shape b = none) (operand : String → Expr) :
    (rule.expr? (fieldOf shape b) operand).isSome = true := by
  obtain ⟨-, hop⟩ := (Rule.fault?_eq_none_iff shape b rule).mp hf
  cases rule with
  | number | text | boolean | digitalRead | analogRead => rfl
  | operation => simpa [Rule.expr?, Operator.operator?_eq] using hop rfl
  | _ => simp [Rule.suits] at hs

mutual

theorem Tree.prints (w : Workspace) : ∀ (t : Tree) (r : Reference),
    (∀ v ∈ t.visits r .operand, (builtinContext w).Admits v.place v.block) →
      Prints (t.operand (builtinContext w)) (t.expr? (builtinContext w))
  | .leaf, _, _ => .absent
  | .node id b inputs next, r, h => by
    have hown := h ⟨r, .operand, id, b⟩ (by simp [Tree.visits])
    have hinputs := Inputs.prints w inputs id fun v hv => h v (by simp [Tree.visits, hv])
    cases hb : b.enabled with
    | false => simpa [Tree.operand, Tree.expr?, blockText, hb, operandText?] using Prints.absent
    | true =>
      obtain ⟨shape, rule, hs, hr, hv, -, -, hf⟩ := hown hb
      simpa [Tree.operand, Tree.expr?, blockText, hb, hs, hr] using
        Rule.prints (suits_of_value hs hr hv) hf (inputs.chainText (builtinContext w)) hinputs

theorem Inputs.prints (w : Workspace) : ∀ (inputs : Inputs) (id : String),
    (∀ v ∈ inputs.visits id, (builtinContext w).Admits v.place v.block) → ∀ slot,
      Prints (inputs.operand (builtinContext w) (.value slot))
        (inputs.expr? (builtinContext w) slot)
  | .nil, _, _, _ => .absent
  | .cons s t others, id, h, slot => by
    by_cases hs : .value slot = s
    · subst hs
      have ht := Tree.prints w t (.link id (.value slot)) fun v hv =>
        h v (by simp [Inputs.visits, placeAt, hv])
      simpa [Inputs.operand, Inputs.expr?] using ht
    · have ho := Inputs.prints w others id (fun v hv => h v (by simp [Inputs.visits, hv])) slot
      simpa [Inputs.operand, Inputs.expr?, hs] using ho

end

theorem Tree.isSome_expr? {w : Workspace} {tree : Tree} {id : String} {b : Block}
    (hu : tree.Unfolds (builtinContext w) .operand (some id)) (hb : w.get? id = some b)
    (hen : b.enabled = true) (r : Reference)
    (ha : ∀ v ∈ tree.visits r .operand, (builtinContext w).Admits v.place v.block) :
    (tree.expr? (builtinContext w)).isSome = true := by
  cases tree with
  | leaf => cases hu
  | node id' b' inputs next =>
    obtain ⟨hid, hb', -, -⟩ := hu
    cases hid
    have heq : some b = some b' := hb.symm.trans hb'
    cases heq
    obtain ⟨shape, rule, hs, hr, hv, -, -, hf⟩ :=
      ha ⟨r, .operand, id, b⟩ (by simp [Tree.visits]) hen
    simpa [Tree.expr?, hen, hs, hr] using Rule.isSome_expr? (suits_of_value hs hr hv) hf _

/-- What is written for an operand reads as the expression that its blocks stand for, and in no
other way, if the texts in it can stand in quotes. -/
theorem expression_reads (w : Workspace) (depth : Nat) (path : List String) (id : String) (b : Block)
    (written : Option (String × Order)) (t t' : Trail) (hb : w.get? id = some b)
    (hen : b.enabled = true)
    (h : outcome (expression (builtinContext w) depth path id) t = (.ok written, t')) :
    ∃ (code : String) (order : Order) (tree : Tree) (e : Expr), written = some (code, order) ∧
      tree.Unfolds (builtinContext w) .operand (some id) ∧
      tree.expr? (builtinContext w) = some e ∧
      (e.Quotable → ∀ e', Reads code e' ↔ e' = e) := by
  obtain ⟨tree, hf, hr⟩ := (walk_ok (builtinContext w) depth).1 path _ _ _ _ h
  have hp := Tree.prints w tree (.root 0) (hf.admitted _)
  have hsome := Tree.isSome_expr? hf.unfolds hb hen (.root 0) (hf.admitted _)
  rw [← hr] at hp
  generalize he : tree.expr? (builtinContext w) = e at hp hsome
  cases hp with
  | absent => cases hsome
  | present hread =>
    refine ⟨_, _, tree, _, rfl, hf.unfolds, he, fun hq e' => ?_⟩
    have hwhole := (hread hq).mono (Expr.level_le _)
    constructor
    · intro h'
      exact ReadsAt.unique h' hwhole
    · rintro rfl
      exact hwhole

/-- A conjunction: of a comparison, in which a difference stands to the right of a difference, and of
an operand that is not enabled. -/
def sampleOperands : Workspace :=
  Document.workspaceOf
    [{ id := "and", typeId := "arduino_logic_operation"
       values := Table.ofList [("A", "eq"), ("B", "off")] },
      { id := "eq", typeId := "arduino_compare", values := Table.ofList [("A", "d"), ("B", "pin")] },
      { id := "d", typeId := "arduino_arithmetic", fields := Table.ofList [("OP", .text "MINUS")]
        values := Table.ofList [("A", "n"), ("B", "d'")] },
      { id := "n", typeId := "arduino_number", fields := Table.ofList [("NUMBER", .number (-1.5))] },
      { id := "d'", typeId := "arduino_arithmetic", fields := Table.ofList [("OP", .text "MINUS")]
        values := Table.ofList [("B", "s")] },
      { id := "s", typeId := "arduino_text", fields := Table.ofList [("TEXT", .text "a - b")] },
      { id := "pin", typeId := "arduino_analog_read" },
      { id := "off", typeId := "arduino_boolean", enabled := false }]

def sampleCode : String := "-1.5 - (0 - \"a - b\") == analogRead(0) && false"

def sampleExpr : Expr :=
  .binary .both
    (.binary .equal
      (.binary .subtract (.number "-1.5") (.binary .subtract (.number "0") (.text "a - b")))
      (.read .analog "0"))
    (.truth false)

theorem expression_reads_sample :
    ∃ (b : Block) (t' : Trail) (tree : Tree), sampleOperands.get? "and" = some b ∧
      b.enabled = true ∧
      outcome (expression (builtinContext sampleOperands) 9 [] "and") {} =
        (.ok (some (sampleCode, .logicalAnd)), t') ∧
      tree.Unfolds (builtinContext sampleOperands) .operand (some "and") ∧
      tree.expr? (builtinContext sampleOperands) = some sampleExpr ∧
      ∀ e', Reads sampleCode e' ↔ e' = sampleExpr := by
  have hblock : (sampleOperands.get? "and").map Block.enabled = some true := by decide +kernel
  have hrun : (outcome (expression (builtinContext sampleOperands) 9 [] "and") {}).1.toOption =
      some (some (sampleCode, .logicalAnd)) := by
    decide +kernel
  have hexpr : ((builtinContext sampleOperands).tree? 9 .operand (some "and")).bind
      (Tree.expr? (builtinContext sampleOperands)) = some sampleExpr := by
    decide +kernel
  have hquotable : sampleExpr.Quotable := by
    simp [sampleExpr, Expr.Quotable, Expression.Quotable]
  obtain ⟨b, hb, hen⟩ := Option.map_eq_some_iff.mp hblock
  obtain ⟨tree, htree, hexpr⟩ := Option.bind_eq_some_iff.mp hexpr
  have hunfolds := Context.unfolds_of_tree? htree
  rcases ho : outcome (expression (builtinContext sampleOperands) 9 [] "and") {} with ⟨r | r, t'⟩
  · simp [ho, Except.toOption] at hrun
  · simp only [ho, Except.toOption, Option.some.injEq] at hrun
    subst hrun
    obtain ⟨code, order, tree', e, hcode, hunfolds', he, hread⟩ :=
      expression_reads sampleOperands 9 [] "and" b _ {} t' hb hen ho
    cases hcode
    rw [hunfolds'.unique hunfolds, hexpr, Option.some.injEq] at he
    subst he
    exact ⟨b, t', tree, hb, hen, rfl, hunfolds, hexpr, hread hquotable⟩

end BlockSketch.Program
