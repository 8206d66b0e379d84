import BlockSketch.Proofs.Program.Arrangement

namespace BlockSketch

theorem Block.Alike.refl (b : Block) : b.Alike b :=
  ⟨rfl, rfl, rfl, rfl, fun _ => rfl, fun _ => rfl⟩

theorem Block.Alike.values {b b' : Block} (h : b.Alike b') (slot : String) :
    b.values.get? slot = b'.values.get? slot :=
  h.links (.value slot)

theorem Block.Alike.statements {b b' : Block} (h : b.Alike b') (slot : String) :
    b.statements.get? slot = b'.statements.get? slot :=
  h.links (.statement slot)

theorem Block.Alike.next {b b' : Block} (h : b.Alike b') : b.next = b'.next :=
  h.links .next

namespace Program

/-- Two workspaces hold the same block under an id, or both hold none. -/
def AgreeOn (c c' : Context) (id : String) : Prop :=
  Option.Rel Block.Alike (c.workspace.get? id) (c'.workspace.get? id)

theorem AgreeOn.cases {c c' : Context} {id : String} (h : AgreeOn c c' id) :
    c.workspace.get? id = none ∧ c'.workspace.get? id = none ∨
      ∃ b b', c.workspace.get? id = some b ∧ c'.workspace.get? id = some b' ∧ b.Alike b' := by
  unfold AgreeOn at h
  generalize c.workspace.get? id = found at h ⊢
  generalize c'.workspace.get? id = found' at h ⊢
  cases h with
  | none => exact .inl ⟨rfl, rfl⟩
  | some hb => exact .inr ⟨_, _, rfl, rfl, hb⟩

theorem AgreeOn.refl (c : Context) (id : String) : AgreeOn c c id := by
  unfold AgreeOn
  cases c.workspace.get? id with
  | none => exact .none
  | some b => exact .some (Block.Alike.refl b)

/-- Relates walks that are made in the same way of related ones. -/
structure Congruence (R : (α : Type) → Walk α → Walk α → Prop) : Prop where
  pure : ∀ {α : Type} (a : α), R α (pure a) (pure a)
  fail : ∀ {α : Type} (f : Fault), R α (fail f) (fail f)
  define : ∀ key text : String,
    R PUnit (modify fun t => { t with definitions := t.definitions.insert key text })
      (modify fun t => { t with definitions := t.definitions.insert key text })
  bind : ∀ {α β : Type} {x x' : Walk α} {f f' : α → Walk β},
    R α x x' → (∀ a, R β (f a) (f' a)) → R β (x >>= f) (x' >>= f')

namespace Congruence

variable {R : (α : Type) → Walk α → Walk α → Prop} (hR : Congruence R) {c c' : Context}
  {b b' : Block} {shape : Shape}
include hR

theorem plan {operand operand' : String → Order → Walk String} {body body' : String → Walk String}
    (hb : b.Alike b') (ho : ∀ slot outer, R String (operand slot outer) (operand' slot outer))
    (hs : ∀ slot, R String (body slot) (body' slot)) (p : Plan) :
    R Rendered (p.run shape b operand body) (p.run shape b' operand' body') := by
  induction p with
  | done r => exact hR.pure r
  | refuse name why =>
    simp only [Plan.run, hb.id]
    exact hR.fail _
  | field name k ih =>
    simp only [Plan.run, readField_of_alike hb, hb.id]
    cases readField shape b' name with
    | ok s => exact ih s
    | error why => exact hR.fail _
  | operand slot outer k ih => exact hR.bind (ho slot outer) ih
  | body slot k ih => exact hR.bind (hs slot) ih
  | define key text k ih => exact hR.bind (hR.define key text) fun _ => ih

variable {expression expression' : String → Walk (Option (String × Order))}
  {chain chain' : String → Walk String}

theorem operand (hb : b.Alike b') (he : ∀ id, R _ (expression id) (expression' id)) (slot : String)
    (outer : Order) :
    R String (operandText shape b expression slot outer) (operandText shape b' expression' slot outer) := by
  simp only [operandText, hb.values]
  cases b'.values.get? slot with
  | none => exact hR.pure _
  | some child =>
    refine hR.bind (he child) fun written => ?_
    cases written with
    | none => exact hR.pure _
    | some written => exact hR.pure _

theorem body (hb : b.Alike b') (hc : ∀ id, R _ (chain id) (chain' id)) (slot : String) :
    R String (bodyText b chain slot) (bodyText b' chain' slot) := by
  simp only [bodyText, hb.statements]
  cases b'.statements.get? slot with
  | none => exact hR.pure _
  | some first => exact hR.bind (hc first) fun _ => hR.pure _

theorem rule (hr : c.rules = c'.rules) (hb : b.Alike b')
    (he : ∀ id, R _ (expression id) (expression' id)) (hc : ∀ id, R _ (chain id) (chain' id)) :
    R Rendered (applyRule c expression chain shape b) (applyRule c' expression' chain' shape b') := by
  simp only [applyRule, hr, hb.typeId, hb.mutation]
  cases c'.rules.get? b'.typeId with
  | none =>
    simp only [hb.id]
    exact hR.fail _
  | some rule => exact hR.plan hb (hR.operand hb he) (hR.body hb hc) _

theorem shaped (hc : c.catalogue = c'.catalogue) (hb : b.Alike b') :
    R Shape (shapeOf c b) (shapeOf c' b') := by
  simp only [shapeOf, hc, hb.typeId, hb.id]
  cases c'.catalogue.shape? b'.typeId with
  | none => exact hR.fail _
  | some shape => exact hR.pure shape

variable {apply apply' : Shape → Block → Walk Rendered}

theorem step (hc : c.catalogue = c'.catalogue) (hb : b.Alike b')
    (ha : ∀ shape, R _ (apply shape b) (apply' shape b')) (mayBeEntry : Bool) :
    R String (stepText c apply mayBeEntry b) (stepText c' apply' mayBeEntry b') := by
  simp only [stepText, hb.enabled, hb.id]
  split_ifs
  · refine hR.bind (hR.shaped hc hb) fun shape => ?_
    split_ifs
    · exact hR.fail _
    · exact hR.fail _
    · refine hR.bind (ha shape) fun written => ?_
      cases written with
      | statement code => exact hR.pure code
      | value code order => exact hR.fail _
  · exact hR.pure ""

theorem value (hc : c.catalogue = c'.catalogue) (hb : b.Alike b')
    (ha : ∀ shape, R _ (apply shape b) (apply' shape b')) :
    R _ (valueText c apply b) (valueText c' apply' b') := by
  simp only [valueText, hb.enabled, hb.id]
  split_ifs
  · refine hR.bind (hR.shaped hc hb) fun shape => ?_
    split_ifs
    · exact hR.fail _
    · refine hR.bind (ha shape) fun written => ?_
      cases written with
      | statement code => exact hR.fail _
      | value code order => exact hR.pure _
  · exact hR.pure none

theorem root {depth depth' : Nat} {id : String} (hc : c.catalogue = c'.catalogue)
    (hid : AgreeOn c c' id)
    (he : R _ (Program.expression c depth [] id) (Program.expression c' depth' [] id))
    (hch : R _ (Program.chain c depth [] true id) (Program.chain c' depth' [] true id)) :
    R String (Program.root c depth id) (Program.root c' depth' id) := by
  unfold Program.root
  rcases hid.cases with ⟨hb, hb'⟩ | ⟨b, b', hb, hb', halike⟩
  · rw [lookup_of_none hb, lookup_of_none hb', fail_bind, fail_bind]
    exact hR.fail _
  · rw [lookup_of_some hb, lookup_of_some hb', pure_bind, pure_bind]
    simp only [halike.enabled]
    split_ifs
    · refine hR.bind (hR.shaped hc halike) fun shape => ?_
      split_ifs
      · refine hR.bind he fun written => ?_
        cases written with
        | none => exact hR.pure ""
        | some written => exact hR.pure _
      · exact hch
    · exact hch

end Congruence

end Program

end BlockSketch
