import BlockSketch.Proofs.Program.Script

namespace BlockSketch.Program

/-- Goes on with a text, and passes a fault on. -/
def Script.orRaise (k : String → Script) : Except Fault String → Script
  | .ok s => k s
  | .error f => .raise f

def Plan.script (b : Block) : Plan → Script
  | .done r => .done r
  | .refuse name why => .raise (.malformedField b.id name why)
  | .field name k => .field b name (.orRaise fun s => (k s).script b)
  | .operand slot outer k => .operand b slot outer (.orRaise fun s => (k s).script b)
  | .body slot k => .body b slot (.orRaise fun s => (k s).script b)
  | .define key text k => .define key text (k.script b)

def Rule.script (rule : Rule) (b : Block) : Script := (rule.plan b.mutation).script b

def Context.generator (c : Context) : Generator :=
  ⟨c.catalogue, c.rules.map Rule.script, c.workspace⟩

theorem Context.rules_generator (c : Context) (typeId : String) :
    c.generator.rules.get? typeId = (c.rules.get? typeId).map Rule.script :=
  Table.get?_map Rule.script c.rules typeId

/-- A trail with the blocks that the walk is inside of. -/
def Trail.desk (t : Trail) (path : List String) : Desk := ⟨t.visited, path, t.definitions⟩

/-- A job does what a walk does, and takes the path of the generator from `path` to `path'`. After a fault the
path is not taken back. -/
structure Enacts {α : Type} (path path' : List String) (x : Walk α) (y : Job α) : Prop where
  ok : ∀ t a t', outcome x t = (.ok a, t') → Job.work y (t.desk path) = (.ok a, t'.desk path')
  error : ∀ t e t', outcome x t = (.error e, t') →
    ∃ stuck, Job.work y (t.desk path) = (.error e, t'.desk stuck)

namespace Enacts

variable {α β : Type} {path path' path'' : List String}

theorem pure (a : α) : Enacts path path (Pure.pure a) (Pure.pure a) where
  ok t a' t' h := by
    rw [outcome_pure, Prod.mk.injEq, Except.ok.injEq] at h
    rw [Job.work_pure, h.1, h.2]
  error t e t' h := by simp at h

theorem fail (f : Fault) : Enacts path path' (Program.fail f : Walk α) (Job.fail f) where
  ok t a t' h := by simp at h
  error t e t' h := by
    rw [outcome_fail, Prod.mk.injEq, Except.error.injEq] at h
    exact ⟨path, by rw [Job.work_fail, h.1, h.2]⟩

theorem throw (e : Halt) : Enacts path path' (MonadExcept.throw e : Walk α) (MonadExcept.throw e) where
  ok t a t' h := by simp at h
  error t e' t' h := by
    rw [outcome_throw, Prod.mk.injEq, Except.error.injEq] at h
    exact ⟨path, by rw [Job.work_throw, h.1, h.2]⟩

theorem bind {x : Walk α} {y : Job α} {f : α → Walk β} {k : α → Job β} (hx : Enacts path path' x y)
    (hf : ∀ t a t', outcome x t = (.ok a, t') → Enacts path' path'' (f a) (k a)) :
    Enacts path path'' (x >>= f) (y >>= k) where
  ok t r t' h := by
    obtain ⟨a, u, ha, hr⟩ := ok_of_outcome_bind h
    rw [Job.work_bind_of_ok (hx.ok t a u ha)]
    exact (hf t a u ha).ok u r t' hr
  error t e t' h := by
    rcases error_of_outcome_bind h with he | ⟨a, u, ha, he⟩
    · obtain ⟨stuck, hwork⟩ := hx.error t e t' he
      exact ⟨stuck, Job.work_bind_of_error hwork k⟩
    · rw [Job.work_bind_of_ok (hx.ok t a u ha)]
      exact (hf t a u ha).error u e t' he

theorem define (key text : String) : Enacts path path
    (modify fun t => { t with definitions := t.definitions.insert key text } : Walk PUnit)
    (modify fun d => { d with definitions := d.definitions.insert key text }) where
  ok t a t' h := by
    rw [outcome_modify, Prod.mk.injEq, Except.ok.injEq] at h
    rw [Job.work_modify, ← h.2]
    rfl
  error t e t' h := by simp at h

theorem leave {ids : List String} (h : path.filter (· ∉ ids) = path') {a : α} :
    Enacts path path' (Pure.pure a) (Generator.leave ids >>= fun _ => Pure.pure a) where
  ok t a' t' ha := by
    rw [outcome_pure, Prod.mk.injEq, Except.ok.injEq] at ha
    rw [Generator.leave, Job.work_bind_of_ok (Job.work_modify _ _), Job.work_pure, ha.1, ← ha.2, ← h]
    rfl
  error t e t' h := by simp at h

theorem lookup (c : Context) (id : String) :
    Enacts path path (Program.lookup c id) (c.generator.lookup id) := by
  cases hb : c.workspace.get? id with
  | none =>
    rw [Program.lookup_of_none hb, Generator.lookup_of_none (g := c.generator) hb]
    exact .fail _
  | some b =>
    rw [Program.lookup_of_some hb, Generator.lookup_of_some (g := c.generator) hb]
    exact .pure b

theorem enter (c : Context) (path : List String) (id : String) :
    Enacts path (id :: path) (Program.enter c path id) (c.generator.enter id) where
  ok t b t' h := by
    obtain ⟨hp, hv, hb, rfl⟩ := enter_ok h
    exact Generator.work_enter_of_some (g := c.generator) hp hv hb
  error t e t' h := by
    refine ⟨path, ?_⟩
    by_cases hp : id ∈ path
    · rw [outcome_enter, if_pos hp, Prod.mk.injEq, Except.error.injEq] at h
      rw [← h.1, ← h.2]
      exact Generator.work_enter_of_path hp
    · by_cases hv : id ∈ t.visited
      · rw [outcome_enter, if_neg hp, if_pos hv, Prod.mk.injEq, Except.error.injEq] at h
        rw [← h.1, ← h.2]
        exact Generator.work_enter_of_visited hp hv
      · cases hb : c.workspace.get? id with
        | some b => simp [outcome_enter_of_some hp hv hb] at h
        | none =>
          rw [outcome_enter_of_none hp hv hb, Prod.mk.injEq, Except.error.injEq] at h
          rw [← h.1, ← h.2]
          exact Generator.work_enter_of_none (g := c.generator) hp hv hb

theorem shapeOf (c : Context) (b : Block) :
    Enacts path path (Program.shapeOf c b) (c.generator.shapeOf b) := by
  unfold Program.shapeOf Generator.shapeOf
  rw [Context.generator]
  cases c.catalogue.shape? b.typeId with
  | none => exact .fail _
  | some shape => exact .pure shape

end Enacts

section

variable {c : Context} {path : List String} {operandAt : String → Job (Option (String × Order))}
  {chainAt : String → Job String} {b : Block} {shape : Shape}

/-- A request whose fault is passed on is a part of the script like any other. -/
theorem work_orRaise (x : Job String) (k : String → Script) (d : Desk) :
    Job.work (x.observe >>= fun r => c.generator.run operandAt chainAt (.orRaise k r)) d =
      Job.work (x >>= fun s => c.generator.run operandAt chainAt (k s)) d := by
  rcases hx : Job.work x d with ⟨(f | id) | s, d'⟩
  · rw [Job.work_bind_of_ok (Job.work_observe_of_fault hx), Job.work_bind_of_error hx]
    rfl
  · rw [Job.work_bind_of_error (Job.work_observe_of_tooDeep hx), Job.work_bind_of_error hx]
  · rw [Job.work_bind_of_ok (Job.work_observe_of_ok hx), Job.work_bind_of_ok hx]
    rfl

theorem Enacts.orRaise {x : Walk String} {y : Job String} {f : String → Walk Rendered}
    {k : String → Script} (hx : Enacts path path x y)
    (hf : ∀ s, Enacts path path (f s) (c.generator.run operandAt chainAt (k s))) :
    Enacts path path (x >>= f)
      (y.observe >>= fun r => c.generator.run operandAt chainAt (.orRaise k r)) := by
  have hbind := hx.bind fun _ s _ _ => hf s
  constructor
  · intro t r t' h
    rw [work_orRaise]
    exact hbind.ok t r t' h
  · intro t e t' h
    rw [work_orRaise]
    exact hbind.error t e t' h

theorem Enacts.plan (hs : c.catalogue.shape? b.typeId = some shape)
    {operand : String → Order → Walk String} {body : String → Walk String}
    (ho : ∀ slot outer,
      Enacts path path (operand slot outer) (c.generator.operand operandAt b slot outer))
    (hb : ∀ slot, Enacts path path (body slot) (Generator.body chainAt b slot)) (plan : Plan) :
    Enacts path path (plan.run shape b operand body)
      (c.generator.run operandAt chainAt (plan.script b)) := by
  induction plan with
  | done r => exact .pure r
  | refuse name why => exact .fail _
  | field name k ih =>
    have hfield : c.generator.field b name = (readField shape b name).mapError (.malformedField b.id name) := by
      simp [Generator.field, Context.generator, hs]
    rw [Plan.run, Plan.script, Generator.run, hfield]
    cases readField shape b name with
    | ok s => exact ih s
    | error why => exact .fail _
  | operand slot outer k ih => exact .orRaise (ho slot outer) ih
  | body slot k ih => exact .orRaise (hb slot) ih
  | define key text k ih => exact .bind (.define key text) fun _ _ _ _ => ih

theorem Enacts.operandText (hs : c.catalogue.shape? b.typeId = some shape)
    {expression : String → Walk (Option (String × Order))}
    (he : ∀ id, Enacts path path (expression id) (operandAt id)) (slot : String) (outer : Order) :
    Enacts path path (operandText shape b expression slot outer)
      (c.generator.operand operandAt b slot outer) := by
  have hshape : c.generator.shapeOf b = Pure.pure shape := by
    simp [Generator.shapeOf, Context.generator, hs]
  unfold Program.operandText Generator.operand Generator.value
  cases b.values.get? slot with
  | none =>
    simp only [pure_bind, hshape]
    exact .pure _
  | some child =>
    simp only [bind_assoc, pure_bind, hshape]
    refine .bind (he child) fun _ written _ _ => ?_
    rcases written with _ | ⟨code, inner⟩
    · exact .pure _
    · exact .pure _

theorem Enacts.bodyText {chain : String → Walk String}
    (hc : ∀ id, Enacts path path (chain id) (chainAt id)) (slot : String) :
    Enacts path path (bodyText b chain slot) (Generator.body chainAt b slot) := by
  unfold Program.bodyText Generator.body
  cases b.statements.get? slot with
  | none => exact .pure _
  | some first => exact .bind (hc first) fun _ _ _ _ => .pure _

theorem Enacts.applyRule (hs : c.catalogue.shape? b.typeId = some shape)
    {expression : String → Walk (Option (String × Order))} {chain : String → Walk String}
    (he : ∀ id, Enacts path path (expression id) (operandAt id))
    (hc : ∀ id, Enacts path path (chain id) (chainAt id)) :
    Enacts path path (applyRule c expression chain shape b)
      (c.generator.apply operandAt chainAt b) := by
  unfold Program.applyRule Generator.apply
  rw [c.rules_generator]
  cases c.rules.get? b.typeId with
  | none => exact .fail _
  | some rule => exact .plan hs (.operandText hs he) (.bodyText hc) (rule.plan b.mutation)

end

section

variable {c : Context} {path : List String} {apply : Shape → Block → Walk Rendered}
  {applyAt : Block → Job Rendered} {b : Block}

theorem shape_of_ok {shape : Shape} {t t' : Trail}
    (h : outcome (shapeOf c b) t = (.ok shape, t')) : c.catalogue.shape? b.typeId = some shape := by
  rw [← bind_pure (shapeOf c b)] at h
  obtain ⟨shape', hs, h⟩ := ok_of_shapeOf_bind h
  rw [hs, (ok_of_outcome_pure h).1]

theorem Enacts.stepText (ha : ∀ shape, c.catalogue.shape? b.typeId = some shape →
      Enacts path path (apply shape b) (applyAt b)) (mayBeEntry : Bool) :
    Enacts path path (stepText c apply mayBeEntry b) (c.generator.stepText applyAt mayBeEntry b) := by
  unfold Program.stepText Generator.stepText
  split_ifs
  · refine .bind (.shapeOf c b) fun t shape t' hshape => ?_
    have hs := shape_of_ok hshape
    split_ifs
    · exact .fail _
    · exact .fail _
    · refine .bind (ha shape hs) fun _ written _ _ => ?_
      cases written with
      | statement code => exact .pure code
      | value code order => exact .fail _
  · exact .pure ""

theorem Enacts.valueText (ha : ∀ shape, c.catalogue.shape? b.typeId = some shape →
      Enacts path path (apply shape b) (applyAt b)) :
    Enacts path path (valueText c apply b) (c.generator.valueText applyAt b) := by
  unfold Program.valueText Generator.valueText
  split_ifs
  · refine .bind (.shapeOf c b) fun t shape t' hshape => ?_
    have hs := shape_of_ok hshape
    split_ifs
    · exact .fail _
    · refine .bind (ha shape hs) fun _ written _ _ => ?_
      cases written with
      | statement code => exact .fail _
      | value code order => exact .pure _
  · exact .pure none

end

section

variable {c : Context}

theorem filter_not_mem_append {members path : List String} (h : ∀ id ∈ members, id ∉ path) :
    (members ++ path).filter (· ∉ members) = path := by
  have hmembers : members.filter (· ∉ members) = [] := by simp
  have hpath : path.filter (· ∉ members) = path := by
    rw [List.filter_eq_self]
    intro id hid
    simpa using fun hm => h id hm hid
  rw [List.filter_append, hmembers, hpath, List.nil_append]

/-- A chain, `members` being those of its blocks that were entered already. -/
theorem Enacts.follow {apply : List String → Shape → Block → Walk Rendered}
    {applyAt : Block → Job Rendered}
    (ha : ∀ path shape b, c.catalogue.shape? b.typeId = some shape →
      Enacts path path (apply path shape b) (applyAt b))
    (n : Nat) {members path : List String} (hm : ∀ id ∈ members, id ∉ path) (mayBeEntry : Bool)
    (id : String) :
    Enacts (members ++ path) path (follow c apply n (members ++ path) mayBeEntry id)
      (c.generator.follow applyAt n members mayBeEntry id) := by
  induction n generalizing members mayBeEntry id with
  | zero => exact .throw _
  | succ n ih =>
    refine .bind (.enter c (members ++ path) id) fun t b t' hent => ?_
    refine .bind (.stepText (fun shape hs => ha _ shape b hs) mayBeEntry) fun _ code _ _ => ?_
    obtain ⟨hnew, -⟩ := enter_ok hent
    have hm' : ∀ i ∈ id :: members, i ∉ path := by
      refine List.forall_mem_cons.mpr ⟨fun hid => hnew (List.mem_append_right _ hid), hm⟩
    cases b.next with
    | none => exact .leave (filter_not_mem_append hm')
    | some next => exact .bind (ih hm' false next) fun _ _ _ _ => .pure _

theorem enacts_walk (c : Context) (depth : Nat) :
    (∀ path id, Enacts path path (expression c depth path id) (c.generator.expression depth id)) ∧
      ∀ path mayBeEntry id,
        Enacts path path (chain c depth path mayBeEntry id) (c.generator.chain depth mayBeEntry id) := by
  induction depth with
  | zero => exact ⟨fun _ _ => .throw _, fun _ _ _ => .throw _⟩
  | succ depth ih =>
    obtain ⟨he, hc⟩ := ih
    have ha (path : List String) (shape : Shape) (b : Block)
        (hs : c.catalogue.shape? b.typeId = some shape) : Enacts path path
          (applyRule c (expression c depth path) (chain c depth path false) shape b)
          (c.generator.apply (c.generator.expression depth) (c.generator.chain depth false) b) :=
      .applyRule hs (he path) (hc path false)
    constructor
    · intro path id
      rw [expression, Generator.expression]
      refine .bind (.enter c path id) fun t b t' hent => ?_
      obtain ⟨hnew, -⟩ := enter_ok hent
      have hone : ∀ i ∈ [id], i ∉ path := List.forall_mem_singleton.mpr hnew
      rw [← bind_pure (valueText c _ b)]
      refine .bind (.valueText fun shape hs => ha _ shape b hs) fun _ written _ _ => ?_
      exact .leave (filter_not_mem_append hone)
    · intro path mayBeEntry id
      rw [chain, Generator.chain]
      have hnil : ∀ i ∈ ([] : List String), i ∉ path := by simp
      exact Enacts.follow ha (c.workspace.size + 1) hnil mayBeEntry id

theorem Enacts.root (c : Context) (depth : Nat) (id : String) :
    Enacts [] [] (root c depth id) (c.generator.root depth id) := by
  obtain ⟨he, hc⟩ := enacts_walk c depth
  unfold Program.root Generator.root
  refine .bind (.lookup c id) fun _ b _ _ => ?_
  split_ifs
  · refine .bind (.shapeOf c b) fun _ shape _ _ => ?_
    split_ifs
    · refine .bind (he [] id) fun _ written _ _ => ?_
      rcases written with _ | ⟨code, order⟩
      · exact .pure ""
      · exact .pure code
    · exact hc [] true id
  · exact hc [] true id

theorem Enacts.rootTexts (c : Context) (depth : Nat) (roots : List String) :
    Enacts [] [] (rootTexts c depth roots) (c.generator.rootTexts depth roots) := by
  induction roots with
  | nil => exact .pure []
  | cons id rest ih =>
    refine .bind (.root c depth id) fun _ code _ _ => ?_
    exact .bind ih fun _ others _ _ => .pure _

end

end BlockSketch.Program
