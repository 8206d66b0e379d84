import BlockSketch.Proofs.Program.Outcome
import BlockSketch.Proofs.Workspace.Links

namespace BlockSketch.Program

/-- Any rule, as what it asks of the generator. Each request is answered by a text or by a fault, and either
way the rule goes on as it likes. -/
inductive Script where
  | done (r : Rendered)
  | raise (f : Fault)
  | define (key text : String) (k : Script)
  | field (b : Block) (name : String) (k : Except Fault String → Script)
  /-- The operand in a value slot, if there is one. -/
  | value (b : Block) (slot : String) (outer : Order) (k : Except Fault (Option String) → Script)
  /-- The operand in a value slot, or the literal for an absent one. -/
  | operand (b : Block) (slot : String) (outer : Order) (k : Except Fault String → Script)
  | body (b : Block) (slot : String) (k : Except Fault String → Script)
  | chain (first : String) (k : Except Fault String → Script)

/-- An answer does not report a block that is not there. -/
def Reported {α : Type} (r : Except Fault α) : Prop := ∀ id, r ≠ .error (.missing id)

/-- Every block that a script names itself is one of `ids`, and it raises no fault about a block that is not
there, unless it was given one. -/
def Script.Within (ids : String → Prop) : Script → Prop
  | .done _ => True
  | .raise f => ∀ id, f ≠ .missing id
  | .define _ _ k => k.Within ids
  | .field _ _ k => ∀ r, Reported r → (k r).Within ids
  | .value b slot _ k =>
    (∀ n, b.values.get? slot = some n → ids n) ∧ ∀ r, Reported r → (k r).Within ids
  | .operand b slot _ k =>
    (∀ n, b.values.get? slot = some n → ids n) ∧ ∀ r, Reported r → (k r).Within ids
  | .body b slot k =>
    (∀ n, b.statements.get? slot = some n → ids n) ∧ ∀ r, Reported r → (k r).Within ids
  | .chain first k => ids first ∧ ∀ r, Reported r → (k r).Within ids

theorem Script.Within.mono {ids ids' : String → Prop} (hids : ∀ n, ids n → ids' n) {script : Script}
    (h : script.Within ids) : script.Within ids' := by
  induction script with
  | done r => trivial
  | raise f => exact h
  | define key text k ih => exact ih h
  | field b name k ih => exact fun r hr => ih r (h r hr)
  | value b slot outer k ih =>
    exact ⟨fun n hn => hids n (h.1 n hn), fun r hr => ih r (h.2 r hr)⟩
  | operand b slot outer k ih =>
    exact ⟨fun n hn => hids n (h.1 n hn), fun r hr => ih r (h.2 r hr)⟩
  | body b slot k ih => exact ⟨fun n hn => hids n (h.1 n hn), fun r hr => ih r (h.2 r hr)⟩
  | chain first k ih => exact ⟨hids first h.1, fun r hr => ih r (h.2 r hr)⟩

/-- What a generator has done so far. Rules may go on after a fault, so that the blocks that it is inside of
are part of this. -/
structure Desk where
  visited : List String := []
  path : List String := []
  definitions : Table String := ∅

abbrev Job := ExceptT Halt (StateM Desk)

namespace Job

variable {α β : Type}

def work (x : Job α) (d : Desk) : Except Halt α × Desk := x.run.run d

def fail (f : Fault) : Job α := throw (.fault f)

/-- The answer of a job as a rule sees it. -/
def observe (x : Job α) : Job (Except Fault α) :=
  ExceptT.mk do
    match ← x.run with
    | .ok a => return .ok (.ok a)
    | .error (.fault f) => return .ok (.error f)
    | .error (.tooDeep id) => return .error (.tooDeep id)

end Job

/-- A generator for any table of rules. -/
structure Generator where
  catalogue : Catalogue
  rules : Table (Block → Script)
  workspace : Workspace

namespace Generator

variable (g : Generator) (operandAt : String → Job (Option (String × Order)))
  (chainAt : String → Job String)

def lookup (id : String) : Job Block :=
  match g.workspace.get? id with
  | some b => return b
  | none => Job.fail (.missing id)

def enter (id : String) : Job Block := do
  let d ← get
  if id ∈ d.path then Job.fail (.cyclic id)
  else if id ∈ d.visited then Job.fail (.shared id)
  else
    modify fun d => { d with visited := id :: d.visited }
    let b ← g.lookup id
    modify fun d => { d with path := id :: d.path }
    return b

def leave (ids : List String) : Job PUnit :=
  modify fun d => { d with path := d.path.filter (· ∉ ids) }

def shapeOf (b : Block) : Job Shape :=
  match g.catalogue.shape? b.typeId with
  | some s => return s
  | none => Job.fail (.unknownType b.id b.typeId)

def field (b : Block) (name : String) : Except Fault String :=
  match g.catalogue.shape? b.typeId with
  | some shape => (readField shape b name).mapError (.malformedField b.id name)
  | none => .error (.unknownType b.id b.typeId)

def value (b : Block) (slot : String) (outer : Order) : Job (Option String) := do
  match b.values.get? slot with
  | none => return none
  | some child => return (← operandAt child).map fun written => outer.wrap written.1 written.2

def operand (b : Block) (slot : String) (outer : Order) : Job String := do
  match ← value operandAt b slot outer with
  | some code => return code
  | none => return ((← g.shapeOf b).defaultLiteral? slot).getD ""

def body (b : Block) (slot : String) : Job String := do
  match b.statements.get? slot with
  | none => return ""
  | some first =>
    let code ← chainAt first
    return if code.isEmpty then "" else Text.indentLines margin code

def run : Script → Job Rendered
  | .done r => return r
  | .raise f => Job.fail f
  | .define key text k => do
    modify fun d => { d with definitions := d.definitions.insert key text }
    run k
  | .field b name k => run (k (g.field b name))
  | .value b slot outer k => do run (k (← (value operandAt b slot outer).observe))
  | .operand b slot outer k => do run (k (← (g.operand operandAt b slot outer).observe))
  | .body b slot k => do run (k (← (body chainAt b slot).observe))
  | .chain first k => do run (k (← (chainAt first).observe))

def apply (b : Block) : Job Rendered :=
  match g.rules.get? b.typeId with
  | none => Job.fail (.missingRule b.id b.typeId)
  | some rule => g.run operandAt chainAt (rule b)

def stepText (apply : Block → Job Rendered) (mayBeEntry : Bool) (b : Block) : Job String := do
  if b.enabled then
    let shape ← g.shapeOf b
    if !shape.isStatement then Job.fail (.mismatch b.id .statement)
    else if !mayBeEntry && !shape.isChainable then Job.fail (.mismatch b.id .nestable)
    else
      match ← apply b with
      | .statement code => return code
      | .value _ _ => Job.fail (.mismatch b.id .statement)
  else return ""

def valueText (apply : Block → Job Rendered) (b : Block) : Job (Option (String × Order)) := do
  if b.enabled then
    let shape ← g.shapeOf b
    if !shape.isValue then Job.fail (.mismatch b.id .value)
    else
      match ← apply b with
      | .value code order => return if code.isEmpty then none else some (code, order)
      | .statement _ => Job.fail (.mismatch b.id .value)
  else return none

/-- The blocks of a chain from `id` on, `members` being those before it. They are left all at once. -/
def follow (apply : Block → Job Rendered) : Nat → List String → Bool → String → Job String
  | 0, _, _, id => throw (.tooDeep id)
  | n + 1, members, mayBeEntry, id => do
    let b ← g.enter id
    let code ← g.stepText apply mayBeEntry b
    match b.next with
    | none => do
      leave (id :: members)
      return code
    | some next =>
      let rest ← follow apply n (id :: members) false next
      return code ++ rest

mutual

def expression : Nat → String → Job (Option (String × Order))
  | 0, id => throw (.tooDeep id)
  | depth + 1, id => do
    let b ← g.enter id
    let written ← g.valueText (g.apply (expression depth) (chain depth false)) b
    leave [id]
    return written

def chain : Nat → Bool → String → Job String
  | 0, _, id => throw (.tooDeep id)
  | depth + 1, mayBeEntry, id =>
    g.follow (g.apply (expression depth) (chain depth false)) (g.workspace.size + 1) [] mayBeEntry id

end

def root (depth : Nat) (id : String) : Job String := do
  let b ← g.lookup id
  if b.enabled then
    let shape ← g.shapeOf b
    if shape.isValue then
      match ← g.expression depth id with
      | some (code, _) => return code
      | none => return ""
    else g.chain depth true id
  else g.chain depth true id

def rootTexts (depth : Nat) : List String → Job (List String)
  | [] => return []
  | id :: rest => do
    let code ← g.root depth id
    let others ← rootTexts depth rest
    return code :: others

/-- The program text for the roots, or the first fault, of a walk that is at most `depth` blocks deep. -/
def generate (depth : Nat) (roots : List String) : Except Fault String :=
  match Job.work (g.rootTexts depth roots) {} with
  | (.ok texts, d) => .ok (assemble d.definitions (joinRoots texts))
  | (.error (.fault f), _) => .error f
  | (.error (.tooDeep id), _) => .error (.cyclic id)

end Generator

namespace Job

variable {α β : Type} {d d' : Desk}

@[simp] theorem work_pure (a : α) (d : Desk) : work (pure a) d = (.ok a, d) := rfl

@[simp] theorem work_fail (f : Fault) (d : Desk) : work (fail f : Job α) d = (.error (.fault f), d) := rfl

@[simp] theorem work_throw (e : Halt) (d : Desk) : work (throw e : Job α) d = (.error e, d) := rfl

@[simp] theorem work_get (d : Desk) : work (get : Job Desk) d = (.ok d, d) := rfl

@[simp] theorem work_modify (f : Desk → Desk) (d : Desk) :
    work (modify f : Job PUnit) d = (.ok ⟨⟩, f d) := rfl

theorem work_bind_of_ok {x : Job α} {a : α} (h : work x d = (.ok a, d')) (f : α → Job β) :
    work (x >>= f) d = work (f a) d' := by
  unfold work at h ⊢
  simp only [ExceptT.run_bind, StateT.run_bind, h]
  rfl

theorem work_bind_of_error {x : Job α} {e : Halt} (h : work x d = (.error e, d')) (f : α → Job β) :
    work (x >>= f) d = (.error e, d') := by
  unfold work at h ⊢
  simp only [ExceptT.run_bind, StateT.run_bind, h]
  rfl

theorem work_observe_of_ok {x : Job α} {a : α} (h : work x d = (.ok a, d')) :
    work x.observe d = (.ok (.ok a), d') := by
  unfold work observe at *
  simp only [ExceptT.run_mk, StateT.run_bind, h]
  rfl

theorem work_observe_of_fault {x : Job α} {f : Fault} (h : work x d = (.error (.fault f), d')) :
    work x.observe d = (.ok (.error f), d') := by
  unfold work observe at *
  simp only [ExceptT.run_mk, StateT.run_bind, h]
  rfl

theorem work_observe_of_tooDeep {x : Job α} {id : String}
    (h : work x d = (.error (.tooDeep id), d')) : work x.observe d = (.error (.tooDeep id), d') := by
  unfold work observe at *
  simp only [ExceptT.run_mk, StateT.run_bind, h]
  rfl

/-- A job never reports a block that is not there. -/
def Gapless (x : Job α) : Prop :=
  ∀ d f d', work x d = (.error (.fault f), d') → ∀ id, f ≠ .missing id

namespace Gapless

theorem pure (a : α) : Gapless (Pure.pure a : Job α) := by
  intro d f d' h
  simp at h

theorem fail {f : Fault} (hf : ∀ id, f ≠ .missing id) : Gapless (Job.fail f : Job α) := by
  intro d f' d' h
  simp only [work_fail, Prod.mk.injEq, Except.error.injEq, Halt.fault.injEq] at h
  exact h.1 ▸ hf

theorem tooDeep (id : String) : Gapless (throw (.tooDeep id) : Job α) := by
  intro d f d' h
  simp at h

theorem update (f : Desk → Desk) : Gapless (modify f : Job PUnit) := by
  intro d f d' h
  simp at h

theorem bind {x : Job α} {f : α → Job β} (hx : Gapless x)
    (hf : ∀ d a d', work x d = (.ok a, d') → Gapless (f a)) : Gapless (x >>= f) := by
  intro d e d' h
  rcases hx' : work x d with ⟨halt | a, s⟩
  · rw [work_bind_of_error hx', Prod.mk.injEq, Except.error.injEq] at h
    rw [h.1] at hx'
    exact hx d e s hx'
  · rw [work_bind_of_ok hx'] at h
    exact hf d a s hx' s e d' h

theorem observe {x : Job α} {f : Except Fault α → Job β} (hx : Gapless x)
    (hf : ∀ r, Reported r → Gapless (f r)) : Gapless (x.observe >>= f) := by
  intro d e d' h
  rcases hx' : work x d with ⟨halt | a, s⟩
  · cases halt with
    | fault fault =>
      rw [work_bind_of_ok (work_observe_of_fault hx')] at h
      refine hf (.error fault) (fun id hid => ?_) s e d' h
      exact hx d fault s hx' id (Except.error.inj hid)
    | tooDeep id =>
      rw [work_bind_of_error (work_observe_of_tooDeep hx')] at h
      simp at h
  · rw [work_bind_of_ok (work_observe_of_ok hx')] at h
    exact hf (.ok a) (fun id hid => by cases hid) s e d' h

end Gapless

end Job

namespace Generator

variable {g : Generator}

theorem lookup_of_some {id : String} {b : Block} (h : g.workspace.get? id = some b) :
    g.lookup id = pure b := by
  simp [lookup, h]

theorem lookup_of_none {id : String} (h : g.workspace.get? id = none) :
    g.lookup id = Job.fail (.missing id) := by
  simp [lookup, h]

theorem work_enter_of_path {id : String} {d : Desk} (hp : id ∈ d.path) :
    Job.work (g.enter id) d = (.error (.fault (.cyclic id)), d) := by
  rw [enter, Job.work_bind_of_ok (Job.work_get d), if_pos hp, Job.work_fail]

theorem work_enter_of_visited {id : String} {d : Desk} (hp : id ∉ d.path) (hv : id ∈ d.visited) :
    Job.work (g.enter id) d = (.error (.fault (.shared id)), d) := by
  rw [enter, Job.work_bind_of_ok (Job.work_get d), if_neg hp, if_pos hv, Job.work_fail]

theorem work_enter_of_some {id : String} {d : Desk} {b : Block} (hp : id ∉ d.path)
    (hv : id ∉ d.visited) (hb : g.workspace.get? id = some b) :
    Job.work (g.enter id) d =
      (.ok b, { d with visited := id :: d.visited, path := id :: d.path }) := by
  rw [enter, Job.work_bind_of_ok (Job.work_get d), if_neg hp, if_neg hv,
    Job.work_bind_of_ok (Job.work_modify _ d), lookup_of_some hb,
    Job.work_bind_of_ok (Job.work_pure b _), Job.work_bind_of_ok (Job.work_modify _ _), Job.work_pure]

theorem work_enter_of_none {id : String} {d : Desk} (hp : id ∉ d.path) (hv : id ∉ d.visited)
    (hb : g.workspace.get? id = none) :
    Job.work (g.enter id) d =
      (.error (.fault (.missing id)), { d with visited := id :: d.visited }) := by
  rw [enter, Job.work_bind_of_ok (Job.work_get d), if_neg hp, if_neg hv,
    Job.work_bind_of_ok (Job.work_modify _ d), lookup_of_none hb,
    Job.work_bind_of_error (Job.work_fail _ _)]

theorem enter_ok {id : String} {b b' : Block} {d d' : Desk} (hb : g.workspace.get? id = some b)
    (h : Job.work (g.enter id) d = (.ok b', d')) : b' = b := by
  by_cases hp : id ∈ d.path
  · simp [work_enter_of_path hp] at h
  · by_cases hv : id ∈ d.visited
    · simp [work_enter_of_visited hp hv] at h
    · rw [work_enter_of_some hp hv hb, Prod.mk.injEq, Except.ok.injEq] at h
      exact h.1.symm

section

variable {operandAt : String → Job (Option (String × Order))} {chainAt : String → Job String}

end

section

variable {apply : Block → Job Rendered} {b : Block}

end

end Generator

end BlockSketch.Program
