import BlockSketch.Proofs.Program.Progress

namespace BlockSketch.Program

variable {α β : Type}

/-- Two walks that stay together as long as the one meets nothing on which the workspaces differ. -/
structure Lockstep (c c' : Context) (x x' : Walk α) : Prop where
  grows : Grows x
  same : ∀ t : Trail, Settles x t → Settles x' t →
    (∀ id ∈ (outcome x t).2.visited, AgreeOn c c' id) → outcome x' t = outcome x t

namespace Lockstep

variable {c c' : Context} {x x' : Walk α} {f f' : α → Walk β}

theorem of_eq (hx : Grows x) (h : ∀ t, outcome x' t = outcome x t) : Lockstep c c' x x' :=
  ⟨hx, fun t _ _ _ => h t⟩

theorem bind (hx : Lockstep c c' x x') (hf : ∀ a, Lockstep c c' (f a) (f' a)) :
    Lockstep c c' (x >>= f) (x' >>= f') := by
  refine ⟨hx.grows.bind fun a => (hf a).grows, fun t hset hset' hagree => ?_⟩
  have hsame := hx.same t hset.of_bind hset'.of_bind
    fun id hid => hagree id (Grows.subset_bind (fun a => (hf a).grows) hid)
  refine outcome_bind_congr hsame fun a u ho => ?_
  rw [outcome_bind_of_ok ho] at hagree
  exact (hf a).same u (hset.of_ok_bind ho) (hset'.of_ok_bind (hsame.trans ho)) hagree

theorem congruence (c c' : Context) : Congruence fun _ x x' => Lockstep c c' x x' where
  pure _ := .of_eq (fun _ => .of_eq rfl) fun _ => rfl
  fail _ := .of_eq (fun _ => .of_eq rfl) fun _ => rfl
  define _ _ := .of_eq (fun _ => .of_eq rfl) fun _ => rfl
  bind hx hf := hx.bind hf

theorem tooDeep_left (id : String) (x' : Walk α) :
    Lockstep c c' (throw (.tooDeep id)) x' :=
  ⟨fun _ => .of_eq rfl, fun _ hset => absurd rfl (hset id)⟩

theorem tooDeep_right (hx : Grows x) (id : String) : Lockstep c c' x (throw (.tooDeep id)) :=
  ⟨hx, fun _ _ hset' => absurd rfl (hset' id)⟩

/-- The block that is entered is one of those that the workspaces agree on. -/
theorem enter {f f' : Block → Walk β}
    (hf : ∀ b b', b.Alike b' → Lockstep c c' (f b) (f' b')) (path : List String) (id : String) :
    Lockstep c c' (enter c path id >>= f) (enter c' path id >>= f') := by
  have hgrows : ∀ b, Grows (f b) := fun b => (hf b b (.refl b)).grows
  refine ⟨.enter hgrows c path id, fun t hset hset' hagree => ?_⟩
  by_cases hp : id ∈ path
  · simp only [outcome_bind, outcome_enter, if_pos hp]
  by_cases hv : id ∈ t.visited
  · simp only [outcome_bind, outcome_enter, if_neg hp, if_pos hv]
  · -- The id is looked up, so that it is visited in the end.
    cases hb : c.workspace.get? id with
    | none =>
      have hent := outcome_enter_of_none hp hv hb
      rw [outcome_bind_of_error hent] at hagree ⊢
      rcases (hagree id List.mem_cons_self).cases with ⟨-, hb'⟩ | ⟨b, b', hsome, -⟩
      · exact outcome_bind_of_error (outcome_enter_of_none hp hv hb') f'
      · simp [hb] at hsome
    | some b =>
      have hent := outcome_enter_of_some hp hv hb
      rw [outcome_bind_of_ok hent] at hagree ⊢
      have hid := hagree id ((hgrows b _).subset List.mem_cons_self)
      rcases hid.cases with ⟨hnone, -⟩ | ⟨b₀, b', hb₀, hb', halike⟩
      · simp [hb] at hnone
      · rw [hb, Option.some.injEq] at hb₀
        subst hb₀
        have hent' := outcome_enter_of_some hp hv hb'
        rw [outcome_bind_of_ok hent']
        exact (hf b b' halike).same _ (hset.of_ok_bind hent) (hset'.of_ok_bind hent') hagree

end Lockstep

/-- What a pass reads apart from the workspace is the same. -/
structure Context.SameRules (c c' : Context) : Prop where
  catalogue : c.catalogue = c'.catalogue
  rules : c.rules = c'.rules

section Walks

variable {c c' : Context}

theorem follow_lockstep (hc : c.SameRules c')
    {apply apply' : List String → Shape → Block → Walk Rendered}
    (ha : ∀ path shape b b', b.Alike b' → Lockstep c c' (apply path shape b) (apply' path shape b'))
    (n : Nat) : ∀ n' path mayBeEntry id,
      Lockstep c c' (follow c apply n path mayBeEntry id) (follow c' apply' n' path mayBeEntry id) := by
  have hR := Lockstep.congruence c c'
  induction n with
  | zero => exact fun n' path mayBeEntry id => .tooDeep_left id _
  | succ n ih =>
    intro n' path mayBeEntry id
    cases n' with
    | zero =>
      refine .tooDeep_right ?_ id
      exact (follow_progresses (fun path shape b => ⟨(ha path shape b b (.refl b)).grows,
        fun t ht => absurd ht (Nat.not_lt_zero _)⟩) (n + 1) path mayBeEntry id).grows
    | succ n' =>
      refine .enter (fun b b' hb => ?_) path id
      have hstep := hR.step hc.catalogue hb (fun shape => ha (id :: path) shape b b' hb) mayBeEntry
      refine hstep.bind fun code => ?_
      rw [← hb.next]
      cases b.next with
      | none => exact hR.pure code
      | some next => exact (ih n' (id :: path) false next).bind fun rest => hR.pure _

theorem walk_lockstep (hc : c.SameRules c') (depth : Nat) : ∀ depth',
    (∀ path id, Lockstep c c' (expression c depth path id) (expression c' depth' path id)) ∧
      ∀ path mayBeEntry id,
        Lockstep c c' (chain c depth path mayBeEntry id) (chain c' depth' path mayBeEntry id) := by
  induction depth with
  | zero => exact fun _ => ⟨fun _ id => .tooDeep_left id _, fun _ _ id => .tooDeep_left id _⟩
  | succ depth ih =>
    intro depth'
    cases depth' with
    | zero =>
      have hgrows := walk_progresses c (depth + 1)
      exact ⟨fun path id => .tooDeep_right (hgrows.1 path id).grows id,
        fun path mayBeEntry id => .tooDeep_right (hgrows.2 path mayBeEntry id).grows id⟩
    | succ depth' =>
      have hR := Lockstep.congruence c c'
      obtain ⟨hexpression, hchain⟩ := ih depth'
      have hrule : ∀ path shape b b', b.Alike b' → Lockstep c c'
          (applyRule c (expression c depth path) (chain c depth path false) shape b)
          (applyRule c' (expression c' depth' path) (chain c' depth' path false) shape b') :=
        fun path shape b b' hb => hR.rule hc.rules hb (hexpression path) (hchain path false)
      refine ⟨fun path id => ?_, fun path mayBeEntry id => ?_⟩
      · refine .enter (fun b b' hb => ?_) path id
        exact hR.value hc.catalogue hb fun shape => hrule (id :: path) shape b b' hb
      · exact follow_lockstep hc hrule c.depth c'.depth path mayBeEntry id

theorem root_lockstep (hc : c.SameRules c') (depth depth' : Nat) {id : String}
    (hid : AgreeOn c c' id) : Lockstep c c' (root c depth id) (root c' depth' id) :=
  (Lockstep.congruence c c').root hc.catalogue hid ((walk_lockstep hc depth depth').1 [] id)
    ((walk_lockstep hc depth depth').2 [] true id)

end Walks

end BlockSketch.Program

namespace BlockSketch

/-- A block whose fields and slots are listed in another order, and that lies elsewhere. -/
theorem Block.Alike.of_perm (b : Block) {fields : Table FieldValue} {statements values : Table String}
    (hf : b.fields.entries.Perm fields.entries)
    (hs : b.statements.entries.Perm statements.entries)
    (hv : b.values.entries.Perm values.entries) (position : Position) :
    b.Alike { b with
      fields := fields, statements := statements, values := values, position := position } where
  id := rfl
  typeId := rfl
  mutation := rfl
  enabled := rfl
  fields := Table.get?_of_perm hf
  links
    | .statement slot => Table.get?_of_perm hs slot
    | .value slot => Table.get?_of_perm hv slot
    | .next => rfl

namespace Program

/-- The roots that a walk comes to: it goes on behind a root only if that one was written. -/
def startedRoots (c : Context) (depth : Nat) : List String → Trail → List String
  | [], _ => []
  | id :: rest, t =>
    id ::
      match outcome (root c depth id) t with
      | (.ok _, u) => startedRoots c depth rest u
      | (.error _, _) => []

/-- The ids that a pass looks up: the roots that it comes to, and what it enters. -/
def lookedUp (c : Context) (roots : List String) : List String :=
  startedRoots c c.depth roots {} ++ (pass c c.depth roots).2.visited

section

variable {c c' : Context}

theorem outcome_rootTexts_local (hc : c.SameRules c') {depth depth' : Nat} (hd : c.depth ≤ depth)
    (hd' : c'.depth ≤ depth') (roots : List String) : ∀ t : Trail,
    (∀ id ∈ startedRoots c depth roots t, AgreeOn c c' id) →
    (∀ id ∈ (outcome (rootTexts c depth roots) t).2.visited, AgreeOn c c' id) →
      outcome (rootTexts c' depth' roots) t = outcome (rootTexts c depth roots) t := by
  induction roots with
  | nil => exact fun t _ _ => rfl
  | cons id rest ih =>
    intro t hroots hvisited
    have hgrows : ∀ code, Grows (rootTexts c depth rest >>= fun others => pure (code :: others)) :=
      fun code => (rootTexts_progresses c depth rest).grows.bind fun others => .pure (code :: others)
    have hfirst : outcome (root c' depth' id) t = outcome (root c depth id) t := by
      refine (root_lockstep hc depth depth' (hroots id List.mem_cons_self)).same t
        ((root_progresses c depth id).settles_all hd t)
        ((root_progresses c' depth' id).settles_all hd' t) fun i hi => ?_
      exact hvisited i (Grows.subset_bind hgrows hi)
    refine outcome_bind_congr hfirst fun code u ho => ?_
    rw [rootTexts, outcome_bind_of_ok ho] at hvisited
    rw [startedRoots, ho] at hroots
    refine outcome_bind_congr ?_ fun _ _ _ => rfl
    refine ih u (fun i hi => hroots i (List.mem_cons_of_mem id hi)) fun i hi => hvisited i ?_
    exact Grows.subset_bind (fun others => .pure (code :: others)) hi

/-- A pass depends only on what it looks up. -/
theorem generate_eq_of_agree (c : Context) (roots : List String) (w : Workspace)
    (h : ∀ id ∈ lookedUp c roots, Option.Rel Block.Alike (c.workspace.get? id) (w.get? id)) :
    generate { c with workspace := w } roots = generate c roots := by
  have hc : c.SameRules { c with workspace := w } := ⟨rfl, rfl⟩
  have hpass : pass { c with workspace := w } (Context.depth { c with workspace := w }) roots =
      pass c c.depth roots :=
    outcome_rootTexts_local hc (Nat.le_refl _) (Nat.le_refl _) roots {}
      (fun id hid => h id (List.mem_append_left _ hid)) fun id hid => h id (List.mem_append_right _ hid)
  rw [generate, generate, hpass]

end

/-- A loop with a slot that no rule reads, which leads back to it, and another one. -/
def spareLoop : Block where
  id := "w"
  typeId := "arduino_while"
  values := Table.ofList [("WHILE0", "x"), ("SPARE", "w")]
  statements := Table.ofList [("DO0", "d"), ("ELSE", "q")]

def turnedLoop : Block where
  id := "w"
  typeId := "arduino_while"
  values := Table.ofList [("SPARE", "w"), ("WHILE0", "x")]
  statements := Table.ofList [("ELSE", "q"), ("DO0", "d")]
  position := ⟨.ofFloat 3.0, .ofFloat 0.0⟩

/-- A block that is not enabled, so that its condition is not read. -/
def idleBranch : Block where
  id := "d"
  typeId := "arduino_if_else"
  values := Table.ofList [("IF0", "q")]
  enabled := false

def condition : Block := { id := "x", typeId := "arduino_boolean" }

def spareWorkspace : Workspace :=
  Document.workspaceOf [spareLoop, idleBranch, condition, { id := "q", typeId := "unheard" }]

/-- What the unread slots lead to is gone, and there are other blocks. -/
def turnedWorkspace : Workspace :=
  Document.workspaceOf
    [condition, { id := "r", typeId := "arduino_loop", next := some "r" }, idleBranch, turnedLoop]

theorem generate_eq_of_agree_turned :
    lookedUp (builtinContext spareWorkspace) ["w"] = ["w", "d", "x", "w"] ∧
      (∀ id ∈ lookedUp (builtinContext spareWorkspace) ["w"],
        Option.Rel Block.Alike (spareWorkspace.get? id) (turnedWorkspace.get? id)) ∧
      (generate (builtinContext spareWorkspace) ["w"]).isOk = true ∧
      generate (builtinContext turnedWorkspace) ["w"] =
        generate (builtinContext spareWorkspace) ["w"] := by
  have hlooked : lookedUp (builtinContext spareWorkspace) ["w"] = ["w", "d", "x", "w"] := by
    decide +kernel
  have hturned : spareLoop.Alike turnedLoop :=
    .of_perm spareLoop (.refl _) (by decide : spareLoop.statements.entries.Perm turnedLoop.statements.entries)
      (by decide : spareLoop.values.entries.Perm turnedLoop.values.entries) _
  have hloop : Option.Rel Block.Alike (spareWorkspace.get? "w") (turnedWorkspace.get? "w") :=
    .some hturned
  have hbranch : Option.Rel Block.Alike (spareWorkspace.get? "d") (turnedWorkspace.get? "d") :=
    .some (.refl idleBranch)
  have hcondition : Option.Rel Block.Alike (spareWorkspace.get? "x") (turnedWorkspace.get? "x") :=
    .some (.refl condition)
  have hagree : ∀ id ∈ lookedUp (builtinContext spareWorkspace) ["w"],
      Option.Rel Block.Alike (spareWorkspace.get? id) (turnedWorkspace.get? id) := by
    rw [hlooked]
    simp only [List.forall_mem_cons, hloop, hbranch, hcondition, true_and]
    simp
  exact ⟨hlooked, hagree, by decide +kernel,
    generate_eq_of_agree (builtinContext spareWorkspace) ["w"] turnedWorkspace hagree⟩

end Program

end BlockSketch
