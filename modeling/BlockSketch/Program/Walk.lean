import BlockSketch.Catalogue
import BlockSketch.Program.Rule
import BlockSketch.Text.Lines
import BlockSketch.Workspace

namespace BlockSketch.Program

/-- What a pass reads and never changes. -/
structure Context where
  catalogue : Catalogue
  rules : Rules
  workspace : Workspace

/-- What a pass has done so far. -/
structure Trail where
  visited : List String := []
  definitions : Table String := ∅

/-- Why a walk ends early. -/
inductive Halt where
  | fault (f : Fault)
  /-- The depth was used up before this block. -/
  | tooDeep (id : String)

/-- A walk keeps its trail also when it ends early. -/
abbrev Walk := ExceptT Halt (StateM Trail)

def fail {α : Type} (f : Fault) : Walk α := throw (.fault f)

def lookup (c : Context) (id : String) : Walk Block :=
  match c.workspace.get? id with
  | some b => return b
  | none => fail (.missing id)

/-- Enters a block that is linked from the end of `path`. -/
def enter (c : Context) (path : List String) (id : String) : Walk Block := do
  if id ∈ path then fail (.cyclic id)
  else if id ∈ (← get).visited then fail (.shared id)
  else
    modify fun t => { t with visited := id :: t.visited }
    lookup c id

def shapeOf (c : Context) (b : Block) : Walk Shape :=
  match c.catalogue.shape? b.typeId with
  | some s => return s
  | none => fail (.unknownType b.id b.typeId)

/-- The text of a value in a field of this kind. A number must be finite and not below the minimum;
a choice must be one of the options. -/
def fieldText (kind : FieldKind) (v : FieldValue) : Except FieldFault String :=
  match kind with
  | .number min =>
    match v.number? with
    | some n =>
      if n.isFinite then
        match min with
        | some m => if n < m then .error (.belowMinimum n m) else .ok (Decimal.plainText n)
        | none => .ok (Decimal.plainText n)
      else .error (.notNumber v.render)
    | none => .error (.notNumber v.render)
  | .text => .ok v.render
  | .choice options =>
    match v with
    | .text s =>
      if options.any (·.2 == s) then .ok s else .error (.notChoice v.render)
    | .number _ => .error (.notChoice v.render)

/-- The text of a field of a block; an absent field has its default. -/
def readField (shape : Shape) (b : Block) (name : String) : Except FieldFault String :=
  match shape.field? name with
  | none => .error .undeclared
  | some spec => fieldText spec.kind ((b.fields.get? name).getD spec.default)

/-- Follows a plan for one block, given what stands in its slots. -/
def Plan.run (shape : Shape) (b : Block) (operand : String → Order → Walk String)
    (body : String → Walk String) : Plan → Walk Rendered
  | .done r => return r
  | .refuse name why => fail (.malformedField b.id name why)
  | .field name k =>
    match readField shape b name with
    | .ok s => (k s).run shape b operand body
    | .error why => fail (.malformedField b.id name why)
  | .operand slot outer k => do
    let s ← operand slot outer
    (k s).run shape b operand body
  | .body slot k => do
    let s ← body slot
    (k s).run shape b operand body
  | .define key text k => do
    modify fun t => { t with definitions := t.definitions.insert key text }
    k.run shape b operand body

/-- The operand in a value slot; an empty slot, and one that renders to nothing, has its default. -/
def operandText (shape : Shape) (b : Block)
    (expression : String → Walk (Option (String × Order))) (slot : String) (outer : Order) :
    Walk String := do
  let default := (shape.defaultLiteral? slot).getD ""
  match b.values.get? slot with
  | none => return default
  | some child =>
    match ← expression child with
    | some (code, inner) => return outer.wrap code inner
    | none => return default

/-- The margin of a chain inside another block. -/
def margin : String := "  "

/-- The chain in a statement slot, indented; an empty slot is nothing. -/
def bodyText (b : Block) (chain : String → Walk String) (slot : String) : Walk String := do
  match b.statements.get? slot with
  | none => return ""
  | some first =>
    let code ← chain first
    return if code.isEmpty then "" else Text.indentLines margin code

def applyRule (c : Context) (expression : String → Walk (Option (String × Order)))
    (chain : String → Walk String) (shape : Shape) (b : Block) : Walk Rendered :=
  match c.rules.get? b.typeId with
  | none => fail (.missingRule b.id b.typeId)
  | some rule =>
    (rule.plan b.mutation).run shape b (operandText shape b expression) (bodyText b chain)

/-- The text of a block in a chain. A block that is not enabled has none. Only the first block of a
root's own chain may be an entry. -/
def stepText (c : Context) (apply : Shape → Block → Walk Rendered) (mayBeEntry : Bool)
    (b : Block) : Walk String := do
  if b.enabled then
    let shape ← shapeOf c b
    if !shape.isStatement then fail (.mismatch b.id .statement)
    else if !mayBeEntry && !shape.isChainable then fail (.mismatch b.id .nestable)
    else
      match ← apply shape b with
      | .statement code => return code
      | .value _ _ => fail (.mismatch b.id .statement)
  else return ""

/-- The text of an operand, if it has any. -/
def valueText (c : Context) (apply : Shape → Block → Walk Rendered) (b : Block) :
    Walk (Option (String × Order)) := do
  if b.enabled then
    let shape ← shapeOf c b
    if !shape.isValue then fail (.mismatch b.id .value)
    else
      match ← apply shape b with
      | .value code order => return if code.isEmpty then none else some (code, order)
      | .statement _ => fail (.mismatch b.id .value)
  else return none

/-- The blocks of a chain from `id` on, at most `n` of them. -/
def follow (c : Context) (apply : List String → Shape → Block → Walk Rendered) :
    Nat → List String → Bool → String → Walk String
  | 0, _, _, id => throw (.tooDeep id)
  | n + 1, path, mayBeEntry, id => do
    let b ← enter c path id
    let code ← stepText c (apply (id :: path)) mayBeEntry b
    match b.next with
    | none => return code
    | some next =>
      let rest ← follow c apply n (id :: path) false next
      return code ++ rest

mutual

/-- The operand `id`, at most `depth` blocks deep. -/
def expression (c : Context) : Nat → List String → String → Walk (Option (String × Order))
  | 0, _, id => throw (.tooDeep id)
  | depth + 1, path, id => do
    let b ← enter c path id
    valueText c
      (applyRule c (expression c depth (id :: path)) (chain c depth (id :: path) false)) b

/-- The chain that starts with `id`, at most `depth` blocks deep. -/
def chain (c : Context) : Nat → List String → Bool → String → Walk String
  | 0, _, _, id => throw (.tooDeep id)
  | depth + 1, path, mayBeEntry, id =>
    follow c
      (fun path => applyRule c (expression c depth path) (chain c depth path false))
      (c.workspace.size + 1) path mayBeEntry id

end

/-- The text of a root: the operand itself if it is one, else its chain. -/
def root (c : Context) (depth : Nat) (id : String) : Walk String := do
  let b ← lookup c id
  if b.enabled then
    let shape ← shapeOf c b
    if shape.isValue then
      match ← expression c depth [] id with
      | some (code, _) => return code
      | none => return ""
    else chain c depth [] true id
  else chain c depth [] true id

def rootTexts (c : Context) (depth : Nat) : List String → Walk (List String)
  | [] => return []
  | id :: r => do
    let code ← root c depth id
    let others ← rootTexts c depth r
    return code :: others

end BlockSketch.Program
