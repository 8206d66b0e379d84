import BlockSketch.Proofs.Program.Locality

namespace BlockSketch.Program

theorem walk_ext {α : Type} {x y : Walk α} (h : ∀ t, outcome x t = outcome y t) : x = y := by
  funext t
  exact h t

/-- How an operand is walked, given how the operands and chains in its slots are. -/
def operandStep (c : Context) (expression : List String → String → Walk (Option (String × Order)))
    (chain : List String → Bool → String → Walk String) (path : List String) (id : String) :
    Walk (Option (String × Order)) := do
  let b ← enter c path id
  valueText c (applyRule c (expression (id :: path)) (chain (id :: path) false)) b

/-- How a chain is walked, given how the operands and chains in the slots of its first block are, and
the chain behind it. -/
def chainStep (c : Context) (expression : List String → String → Walk (Option (String × Order)))
    (chain : List String → Bool → String → Walk String) (path : List String) (mayBeEntry : Bool)
    (id : String) : Walk String := do
  let b ← enter c path id
  let code ← stepText c (applyRule c (expression (id :: path)) (chain (id :: path) false)) mayBeEntry b
  match b.next with
  | none => return code
  | some next =>
    let rest ← chain (id :: path) false next
    return code ++ rest

/-- The recursion that the walks stand for, in which no depth is counted. -/
structure Recurses (c : Context) (expression : List String → String → Walk (Option (String × Order)))
    (chain : List String → Bool → String → Walk String) : Prop where
  operand : ∀ path id, expression path id = operandStep c expression chain path id
  chain : ∀ path mayBeEntry id,
    chain path mayBeEntry id = chainStep c expression chain path mayBeEntry id

/-- The second walk answers as the first one, unless that one uses up its depth. -/
def Refines {α : Type} (x x' : Walk α) : Prop := ∀ t, Settles x t → outcome x' t = outcome x t

namespace Refines

variable {α β : Type} {x x' : Walk α} {f f' : α → Walk β}

theorem bind (hx : Refines x x') (hf : ∀ a, Refines (f a) (f' a)) : Refines (x >>= f) (x' >>= f') := by
  intro t hset
  exact outcome_bind_congr (hx t hset.of_bind) fun a u ho => hf a u (hset.of_ok_bind ho)

theorem refl (x : Walk α) : Refines x x := fun _ _ => rfl

theorem congruence : Congruence fun _ x x' => Refines x x' where
  pure _ := .refl _
  fail _ := .refl _
  define _ _ := .refl _
  bind hx hf := hx.bind hf

theorem tooDeep (id : String) (x' : Walk α) : Refines (throw (.tooDeep id)) x' :=
  fun _ hset => absurd rfl (hset id)

end Refines

section

variable {c : Context} {expression' : List String → String → Walk (Option (String × Order))}
  {chain' : List String → Bool → String → Walk String}

theorem follow_refines (h : Recurses c expression' chain')
    {apply : List String → Shape → Block → Walk Rendered}
    (ha : ∀ path shape b, Refines (apply path shape b)
      (applyRule c (expression' path) (chain' path false) shape b)) (n : Nat) :
    ∀ path mayBeEntry id,
      Refines (follow c apply n path mayBeEntry id) (chain' path mayBeEntry id) := by
  have hR := Refines.congruence
  induction n with
  | zero => exact fun _ _ id => .tooDeep id _
  | succ n ih =>
    intro path mayBeEntry id
    rw [h.chain]
    refine (Refines.refl _).bind fun b => ?_
    refine (hR.step rfl (.refl b) (fun shape => ha (id :: path) shape b) mayBeEntry).bind fun code => ?_
    cases b.next with
    | none => exact .refl _
    | some next => exact (ih (id :: path) false next).bind fun rest => .refl _

/-- Walks with a depth agree with every solution of the recursion. -/
theorem walk_refines (h : Recurses c expression' chain') (depth : Nat) :
    (∀ path id, Refines (expression c depth path id) (expression' path id)) ∧
      ∀ path mayBeEntry id,
        Refines (chain c depth path mayBeEntry id) (chain' path mayBeEntry id) := by
  have hR := Refines.congruence
  induction depth with
  | zero => exact ⟨fun _ id => .tooDeep id _, fun _ _ id => .tooDeep id _⟩
  | succ depth ih =>
    have hrule : ∀ path shape b,
        Refines (applyRule c (expression c depth path) (chain c depth path false) shape b)
          (applyRule c (expression' path) (chain' path false) shape b) :=
      fun path shape b => hR.rule rfl (.refl b) (ih.1 path) (ih.2 path false)
    refine ⟨fun path id => ?_, fun path mayBeEntry id => ?_⟩
    · rw [h.operand]
      refine (Refines.refl _).bind fun b => ?_
      exact hR.value rfl (.refl b) fun shape => hrule (id :: path) shape b
    · exact follow_refines h hrule c.depth path mayBeEntry id

end

/-- Walks in lockstep in one context, neither of which uses up its depth, are the same. -/
theorem Lockstep.eq {α : Type} {c : Context} {x x' : Walk α} (h : Lockstep c c x x')
    (hx : Progresses c c.depth x) (hx' : Progresses c c.depth x') : x = x' := by
  refine walk_ext fun t => (h.same t ?_ ?_ fun id _ => .refl c id).symm
  · exact hx.settles_all (Nat.le_refl _) t
  · exact hx'.settles_all (Nat.le_refl _) t

section

variable {c : Context} {n : Nat}
  {expression' : List String → String → Walk (Option (String × Order))}
  {chain' : List String → Bool → String → Walk String}
  (he : ∀ path id, Progresses c n (expression' path id))
  (hc : ∀ path mayBeEntry id, Progresses c n (chain' path mayBeEntry id))
include he hc

theorem operandStep_progresses (path : List String) (id : String) :
    Progresses c (n + 1) (operandStep c expression' chain' path id) := by
  refine Progresses.enter (fun b => ?_) path id
  exact ((Progresses.congruence c n).value rfl (.refl b)
    fun shape => ⟨rfl, applyRule_progresses he hc (id :: path) shape b⟩).2

theorem chainStep_progresses (path : List String) (mayBeEntry : Bool) (id : String) :
    Progresses c (n + 1) (chainStep c expression' chain' path mayBeEntry id) := by
  refine Progresses.enter (fun b => ?_) path id
  have hstep := (Progresses.congruence c n).step (rfl : c.catalogue = c.catalogue) (.refl b)
    (fun shape => ⟨rfl, applyRule_progresses he hc (id :: path) shape b⟩) mayBeEntry
  refine hstep.2.bind fun code => ?_
  cases b.next with
  | none => exact .pure c n code
  | some next => exact (hc (id :: path) false next).bind fun rest => .pure c n _

end

/-- Behind a block that was entered one level less is left, and it suffices. -/
theorem recurses_walk (c : Context) : Recurses c (expression c c.depth) (chain c c.depth) := by
  have hR := Lockstep.congruence c c
  have hc : c.SameRules c := ⟨rfl, rfl⟩
  obtain ⟨hexpression, hchain⟩ := walk_progresses c c.depth
  have hrule : ∀ depth path shape b b', b.Alike b' → Lockstep c c
      (applyRule c (expression c c.workspace.size path) (chain c c.workspace.size path false) shape b)
      (applyRule c (expression c depth path) (chain c depth path false) shape b') := by
    intro depth path shape b b' hb
    obtain ⟨he, hch⟩ := walk_lockstep hc c.workspace.size depth
    exact hR.rule rfl hb (he path) (hch path false)
  refine ⟨fun path id => ?_, fun path mayBeEntry id => ?_⟩
  · have hstep := (operandStep_progresses hexpression hchain path id).mono (Nat.le_succ _)
    refine Lockstep.eq (.enter (fun b b' hb => ?_) path id) (hexpression path id) hstep
    exact hR.value rfl hb fun shape => hrule c.depth (id :: path) shape b b' hb
  · have hstep := (chainStep_progresses hexpression hchain path mayBeEntry id).mono (Nat.le_succ _)
    refine Lockstep.eq (.enter (fun b b' hb => ?_) path id) (hchain path mayBeEntry id) hstep
    refine (hR.step rfl hb (fun shape => hrule c.depth (id :: path) shape b b' hb) mayBeEntry).bind
      fun code => ?_
    rw [← hb.next]
    cases b.next with
    | none => exact hR.pure code
    | some next =>
      have hrest := follow_lockstep hc (hrule c.workspace.size) c.workspace.size c.depth
        (id :: path) false next
      exact hrest.bind fun rest => hR.pure _

theorem eq_walk_of_recurses {c : Context}
    {expression' : List String → String → Walk (Option (String × Order))}
    {chain' : List String → Bool → String → Walk String} (h : Recurses c expression' chain') :
    expression' = expression c c.depth ∧ chain' = chain c c.depth := by
  have hwalk := walk_progresses c c.depth
  have hrefines := walk_refines h c.depth
  constructor
  · funext path id
    refine walk_ext fun t => hrefines.1 path id t ?_
    exact (hwalk.1 path id).settles_all (Nat.le_refl _) t
  · funext path mayBeEntry id
    refine walk_ext fun t => hrefines.2 path mayBeEntry id t ?_
    exact (hwalk.2 path mayBeEntry id).settles_all (Nat.le_refl _) t

theorem pass_add_depth (c : Context) (n : Nat) (roots : List String) :
    pass c (c.depth + n) roots = pass c c.depth roots :=
  outcome_rootTexts_local ⟨rfl, rfl⟩ (Nat.le_refl _) (Nat.le_add_right _ n) roots {}
    (fun id _ => .refl c id) fun id _ => .refl c id

theorem nodup_visited (c : Context) (depth : Nat) (roots : List String) :
    (pass c depth roots).2.visited.Nodup :=
  ((rootTexts_progresses c depth roots).grows {}).nodup List.nodup_nil

/-- The recursion without a bound has exactly one solution, on every workspace: the walk with a
depth of one more than the number of blocks. -/
theorem walks_terminate (c : Context) :
    (∀ expression' chain', Recurses c expression' chain' ↔
      expression' = expression c c.depth ∧ chain' = chain c c.depth) ∧
    (∀ n roots, pass c (c.depth + n) roots = pass c c.depth roots ∧
      ∀ id, (pass c c.depth roots).1 ≠ .error (.tooDeep id)) ∧
    (∀ path id t b u, outcome (enter c path id) t = (.ok b, u) →
      id ∉ t.visited ∧ u.visited = id :: t.visited) ∧
    ∀ depth roots, (pass c depth roots).2.visited.Nodup ∧
      ((pass c depth roots).2.visited.filter c.workspace.blocks.contains).length ≤ c.workspace.size := by
  refine ⟨?_, ?_, ?_, ?_⟩
  · intro expression' chain'
    constructor
    · exact eq_walk_of_recurses
    · rintro ⟨rfl, rfl⟩
      exact recurses_walk c
  · intro n roots
    refine ⟨pass_add_depth c n roots, ?_⟩
    exact (rootTexts_progresses c c.depth roots).settles_all (Nat.le_refl _) {}
  · intro path id t b u h
    obtain ⟨-, hv, -, rfl⟩ := enter_ok h
    exact ⟨hv, rfl⟩
  · intro depth roots
    refine ⟨nodup_visited c depth roots, ?_⟩
    refine length_le_size ((nodup_visited c depth roots).filter _) fun id hid => ?_
    exact (Table.contains_iff _ id).mp (List.mem_filter.mp hid).2

end BlockSketch.Program
