import BlockSketch.Document.Load
import BlockSketch.Proofs.Program.Tree

namespace BlockSketch.Program

namespace Trail

/-- The trail after entering blocks and hoisting declarations, both in the order given. -/
def extend (t : Trail) (ids : List String) (declarations : List (String × String)) : Trail where
  visited := ids.reverse ++ t.visited
  definitions := declarations.foldl (fun d e => d.insert e.1 e.2) t.definitions

@[simp] theorem extend_nil (t : Trail) : t.extend [] [] = t := rfl

theorem extend_extend (t : Trail) (ids ids' : List String)
    (declarations declarations' : List (String × String)) :
    (t.extend ids declarations).extend ids' declarations' =
      t.extend (ids ++ ids') (declarations ++ declarations') := by
  simp [extend]

end Trail

/-- Between the trails `t` and `t'` the blocks `ids` were entered, each for the first time, and the
declarations were hoisted. -/
structure Leaves (t t' : Trail) (ids : List String) (declarations : List (String × String)) :
    Prop where
  nodup : ids.Nodup
  fresh : ∀ i ∈ ids, i ∉ t.visited
  trail : t' = t.extend ids declarations

namespace Leaves

variable {t s t' : Trail} {ids ids' : List String} {ds ds' : List (String × String)}

theorem refl (t : Trail) : Leaves t t [] [] := ⟨List.nodup_nil, by simp, rfl⟩

theorem trans (h : Leaves t s ids ds) (h' : Leaves s t' ids' ds') :
    Leaves t t' (ids ++ ids') (ds ++ ds') := by
  obtain ⟨hn, hf, rfl⟩ := h
  obtain ⟨hn', hf', rfl⟩ := h'
  refine ⟨?_, ?_, Trail.extend_extend ..⟩
  · rw [List.nodup_append]
    refine ⟨hn, hn', fun i hi j hj he => ?_⟩
    exact hf' j hj (by simp [Trail.extend, ← he, hi])
  · intro i hi
    rcases List.mem_append.mp hi with hi | hi
    · exact hf i hi
    · intro hv
      exact hf' i hi (by simp [Trail.extend, hv])

theorem enter {c : Context} {path : List String} {id : String} {b : Block}
    (h : outcome (enter c path id) t = (.ok b, t')) : Leaves t t' [id] [] := by
  obtain ⟨-, hv, -, rfl⟩ := enter_ok h
  exact ⟨by simp, by simpa using hv, rfl⟩

end Leaves

theorem outcome_hoist (l : List (String × String)) (t : Trail) :
    outcome (hoist l) t = (.ok (), t.extend [] l) := by
  induction l generalizing t with
  | nil => rfl
  | cons e r ih =>
    rw [hoist, outcome_bind_of_ok (outcome_modify _ t), ih]
    rfl

/-- A block may stand at a place: it is not enabled, or its type and its rule are for this kind of
place, and no field keeps the rule from writing it. -/
def Context.Admits (c : Context) (place : Place) (b : Block) : Prop :=
  b.enabled = true → ∃ shape rule, c.catalogue.shape? b.typeId = some shape ∧
    c.rules.get? b.typeId = some rule ∧ shape.output = place.output ∧ rule.output = place.output ∧
    (place = .chain → shape.isEntry = false) ∧ rule.fault? shape b = none

/-- What a walk that ends well has found at a place. -/
structure Found (c : Context) (place : Place) (at? : Option String) (t t' : Trail) (tree : Tree) :
    Prop where
  unfolds : tree.Unfolds c place at?
  admitted : ∀ r, ∀ v ∈ tree.visits r place, c.Admits v.place v.block
  leaves : Leaves t t' tree.ids (tree.hoisted c)

structure FoundInputs (c : Context) (b : Block) (sockets : List Socket) (t t' : Trail)
    (inputs : Inputs) : Prop where
  unfold : inputs.Unfold c b sockets
  admitted : ∀ id, ∀ v ∈ inputs.visits id, c.Admits v.place v.block
  leaves : Leaves t t' inputs.ids (inputs.hoisted c)

theorem Found.leaf (c : Context) (place : Place) (t : Trail) : Found c place none t t .leaf :=
  ⟨rfl, by simp [Tree.visits], .refl t⟩

theorem FoundInputs.nil (c : Context) (b : Block) (t : Trail) : FoundInputs c b [] t t .nil :=
  ⟨rfl, by simp [Inputs.visits], .refl t⟩

theorem FoundInputs.cons {c : Context} {b : Block} {s : Socket} {r : List Socket}
    {t u t' : Trail} {tree : Tree} {others : Inputs}
    (h : Found c (placeAt s) (b.linked? s) t u tree) (h' : FoundInputs c b r u t' others) :
    FoundInputs c b (s :: r) t t' (.cons s tree others) := by
  refine ⟨⟨r, rfl, h.unfolds, h'.unfold⟩, ?_, h.leaves.trans h'.leaves⟩
  intro id v hv
  rcases List.mem_append.mp hv with hv | hv
  · exact h.admitted _ v hv
  · exact h'.admitted _ v hv

theorem FoundInputs.disabled {c : Context} {b : Block} (hb : b.enabled = false) (t : Trail) :
    Leaves t t [] (ownHoisted c b) ∧ FoundInputs c b (c.reads b) t t .nil := by
  constructor
  · simpa [ownHoisted, hb] using Leaves.refl t
  · simpa [Context.reads, hb] using FoundInputs.nil c b t

/-- How operands are read: a run that ends well has found the tree of the operand. -/
def ReadsOperands (c : Context) (expression : String → Walk (Option (String × Order))) : Prop :=
  ∀ id t r t', outcome (expression id) t = (.ok r, t') →
    ∃ tree, Found c .operand (some id) t t' tree ∧ r = tree.operand c

def ReadsChains (c : Context) (place : Place) (chain : String → Walk String) : Prop :=
  ∀ id t code t', outcome (chain id) t = (.ok code, t') →
    ∃ tree, Found c place (some id) t t' tree ∧ code = tree.chainText c

theorem indented_eq (code : String) :
    (if code.isEmpty then "" else Text.indentLines margin code) = indented code := by
  by_cases h : code = ""
  · subst h
    rfl
  · have hl : code.toList ≠ [] := by simpa using h
    have hm : margin.toList = "  ".toList := rfl
    simp [h, Text.indentLines, indented, Text.append_marginAfterFeeds _ _ hl, hm]

section Reading

variable {c : Context} {expression : String → Walk (Option (String × Order))}
  {chain : String → Walk String} {shape : Shape} {b : Block} {outer : Order} {t t' : Trail}

theorem operandText_ok (he : ReadsOperands c expression) {slot text : String}
    (h : outcome (operandText shape b expression slot outer) t = (.ok text, t')) :
    ∃ tree, Found c .operand (b.linked? (.value slot)) t t' tree ∧
      text = slotText shape outer (fun _ => "") (fun _ => tree.operand c) (.value slot) := by
  unfold operandText at h
  cases hl : b.values.get? slot with
  | none =>
    simp only [hl] at h
    obtain ⟨rfl, rfl⟩ := ok_of_outcome_pure h
    exact ⟨.leaf, by simpa [Block.linked?, hl] using Found.leaf c .operand t, rfl⟩
  | some child =>
    simp only [hl] at h
    obtain ⟨r, u, hr, h⟩ := ok_of_outcome_bind h
    obtain ⟨tree, hf, rfl⟩ := he _ _ _ _ hr
    refine ⟨tree, ?_, ?_⟩
    · cases ho : tree.operand c <;> simp_all [Block.linked?]
    · cases ho : tree.operand c <;> simp_all [slotText]

theorem bodyText_ok (hc : ReadsChains c .chain chain) {slot text : String}
    (h : outcome (bodyText b chain slot) t = (.ok text, t')) :
    ∃ tree, Found c .chain (b.linked? (.statement slot)) t t' tree ∧
      text = indented (tree.chainText c) := by
  unfold bodyText at h
  cases hl : b.statements.get? slot with
  | none =>
    simp only [hl] at h
    obtain ⟨rfl, rfl⟩ := ok_of_outcome_pure h
    exact ⟨.leaf, by simpa [Block.linked?, hl] using Found.leaf c .chain t, rfl⟩
  | some first =>
    simp only [hl] at h
    obtain ⟨code, u, hr, h⟩ := ok_of_outcome_bind h
    obtain ⟨tree, hf, rfl⟩ := hc _ _ _ _ hr
    rw [indented_eq] at h
    obtain ⟨rfl, rfl⟩ := ok_of_outcome_pure h
    exact ⟨tree, by simpa [Block.linked?, hl] using hf, rfl⟩

theorem readSocket_ok (he : ReadsOperands c expression) (hc : ReadsChains c .chain chain)
    {s : Socket} (hn : s ≠ .next) {code : String}
    (h : outcome (readSocket (operandText shape b expression) (bodyText b chain) outer s) t =
      (.ok code, t')) :
    ∃ tree, Found c (placeAt s) (b.linked? s) t t' tree ∧
      code = slotText shape outer (fun _ => tree.chainText c) (fun _ => tree.operand c) s := by
  cases s with
  | next => exact absurd rfl hn
  | value slot => exact operandText_ok he h
  | statement slot => exact bodyText_ok hc h

/-- Reading sockets one after another finds what stands at each of them. -/
theorem readSockets_ok (he : ReadsOperands c expression) (hc : ReadsChains c .chain chain)
    {sockets : List Socket} (hn : .next ∉ sockets) {text : Socket → String}
    (h : outcome (readSockets
      (readSocket (operandText shape b expression) (bodyText b chain) outer)
      (slotText shape outer (fun _ => "") (fun _ => none)) sockets) t = (.ok text, t')) :
    ∃ inputs, FoundInputs c b sockets t t' inputs ∧
      text = slotText shape outer (inputs.chainText c) (inputs.operand c) := by
  induction sockets generalizing t text with
  | nil =>
    simp only [readSockets] at h
    obtain ⟨rfl, rfl⟩ := ok_of_outcome_pure h
    exact ⟨.nil, .nil c b t, rfl⟩
  | cons s r ih =>
    obtain ⟨code, u, hs, h⟩ := ok_of_outcome_bind h
    obtain ⟨others, u', hr, h⟩ := ok_of_outcome_bind h
    obtain ⟨rfl, rfl⟩ := ok_of_outcome_pure h
    obtain ⟨inputs, hi, rfl⟩ := ih (fun hm => hn (List.mem_cons_of_mem s hm)) hr
    have hne : s ≠ .next := fun hs => hn (hs ▸ List.mem_cons_self)
    obtain ⟨tree, hf, rfl⟩ := readSocket_ok he hc hne hs
    refine ⟨.cons s tree inputs, .cons hf hi, ?_⟩
    -- The text of the socket that was read hides what the others have for it.
    funext s'
    by_cases hss : s' = s
    · subst hss
      cases s' <;> simp [slotText, Inputs.chainText, Inputs.operand]
    · cases s' <;> simp [slotText, Inputs.chainText, Inputs.operand, hss]

theorem applyRule_ok (he : ReadsOperands c expression) (hc : ReadsChains c .chain chain)
    (hb : b.enabled = true) (hs : c.catalogue.shape? b.typeId = some shape) {r : Rendered}
    (h : outcome (applyRule c expression chain shape b) t = (.ok r, t')) :
    ∃ inputs u, Leaves t u [] (ownHoisted c b) ∧ FoundInputs c b (c.reads b) u t' inputs ∧
      blockText c b (inputs.chainText c) (inputs.operand c) = some r ∧
      ∃ rule, c.rules.get? b.typeId = some rule ∧ rule.output = r.output ∧
        rule.fault? shape b = none := by
  unfold applyRule at h
  cases hr : c.rules.get? b.typeId with
  | none => simp [hr] at h
  | some rule =>
    simp only [hr, run_plan shape b (operandText shape b expression) (bodyText b chain)
      (slotText shape (rule.outer (fieldOf shape b)) (fun _ => "") (fun _ => none)) rule] at h
    cases hf : rule.fault? shape b with
    | some fault => simp [hf] at h
    | none =>
      simp only [hf, Rule.fill] at h
      rw [outcome_bind_of_ok (outcome_hoist _ t)] at h
      obtain ⟨text, u, ht, h⟩ := ok_of_outcome_bind h
      obtain ⟨rfl, rfl⟩ := ok_of_outcome_pure h
      obtain ⟨inputs, hi, rfl⟩ :=
        readSockets_ok he hc (rule.next_not_mem_sockets b.mutation) ht
      refine ⟨inputs, _, ⟨List.nodup_nil, by simp, rfl⟩, ?_, ?_, ?_⟩
      · simpa [Context.reads, ownHoisted, hb, hs, hr] using hi
      · simp [blockText, hb, hs, hr]
      · exact ⟨rule, rfl, (Rule.output_render ..).symm, hf⟩

theorem stepText_ok (he : ReadsOperands c expression) (hc : ReadsChains c .chain chain)
    {mayBeEntry : Bool} {code : String}
    (h : outcome (stepText c (applyRule c expression chain) mayBeEntry b) t = (.ok code, t')) :
    ∃ inputs u, Leaves t u [] (ownHoisted c b) ∧ FoundInputs c b (c.reads b) u t' inputs ∧
      code = statementText (blockText c b (inputs.chainText c) (inputs.operand c)) ∧
      c.Admits (if mayBeEntry then .top else .chain) b := by
  unfold stepText at h
  cases hb : b.enabled with
  | false =>
    simp only [hb, Bool.false_eq_true, if_false] at h
    obtain ⟨rfl, rfl⟩ := ok_of_outcome_pure h
    obtain ⟨hl, hi⟩ := FoundInputs.disabled (c := c) hb t
    exact ⟨.nil, t, hl, hi, by simp [blockText, hb, statementText], by simp [Context.Admits, hb]⟩
  | true =>
    rw [if_pos hb] at h
    obtain ⟨shape, hs, h⟩ := ok_of_shapeOf_bind h
    split_ifs at h with hst hen
    · simp at h
    · simp at h
    obtain ⟨r, u, hr, h⟩ := ok_of_outcome_bind h
    cases r with
    | value code order => simp at h
    | statement code' =>
      obtain ⟨rfl, rfl⟩ := ok_of_outcome_pure h
      obtain ⟨inputs, v, hv, hi, ht, rule, hrule, hout, hfault⟩ := applyRule_ok he hc hb hs hr
      refine ⟨inputs, v, hv, hi, by simp [ht, statementText], fun _ =>
        ⟨shape, rule, hs, hrule, ?_, hout.trans ?_, ?_, hfault⟩⟩
      · cases mayBeEntry <;> simpa [Place.output] using hst
      · cases mayBeEntry <;> rfl
      · cases mayBeEntry <;> simp_all

theorem valueText_ok (he : ReadsOperands c expression) (hc : ReadsChains c .chain chain)
    {r : Option (String × Order)}
    (h : outcome (valueText c (applyRule c expression chain) b) t = (.ok r, t')) :
    ∃ inputs u, Leaves t u [] (ownHoisted c b) ∧ FoundInputs c b (c.reads b) u t' inputs ∧
      r = operandText? (blockText c b (inputs.chainText c) (inputs.operand c)) ∧
      c.Admits .operand b := by
  unfold valueText at h
  cases hb : b.enabled with
  | false =>
    simp only [hb, Bool.false_eq_true, if_false] at h
    obtain ⟨rfl, rfl⟩ := ok_of_outcome_pure h
    obtain ⟨hl, hi⟩ := FoundInputs.disabled (c := c) hb t
    exact ⟨.nil, t, hl, hi, by simp [blockText, hb, operandText?], by simp [Context.Admits, hb]⟩
  | true =>
    rw [if_pos hb] at h
    obtain ⟨shape, hs, h⟩ := ok_of_shapeOf_bind h
    split_ifs at h with hst
    · simp at h
    obtain ⟨r, u, hr, h⟩ := ok_of_outcome_bind h
    cases r with
    | statement code => simp at h
    | value code order =>
      obtain ⟨rfl, rfl⟩ := ok_of_outcome_pure h
      obtain ⟨inputs, v, hv, hi, ht, rule, hrule, hout, hfault⟩ := applyRule_ok he hc hb hs hr
      refine ⟨inputs, v, hv, hi, by simp [ht, operandText?], fun _ =>
        ⟨shape, rule, hs, hrule, ?_, hout, by simp, hfault⟩⟩
      simpa [Place.output] using hst

theorem Found.node {place : Place} {id : String} {u v w : Trail} {inputs : Inputs} {next : Tree}
    {path : List String} (hent : outcome (enter c path id) t = (.ok b, u))
    (hown : Leaves u v [] (ownHoisted c b)) (hin : FoundInputs c b (c.reads b) v w inputs)
    (hadm : c.Admits place b) (hnext : Found c .chain (place.next? b) w t' next) :
    Found c place (some id) t t' (.node id b inputs next) := by
  obtain ⟨-, -, hget, -⟩ := enter_ok hent
  refine ⟨⟨rfl, hget, hin.unfold, hnext.unfolds⟩, ?_, ?_⟩
  · intro r v hv
    simp only [Tree.visits, List.mem_cons, List.mem_append] at hv
    rcases hv with rfl | hv | hv
    · exact hadm
    · exact hin.admitted _ v hv
    · exact hnext.admitted _ v hv
  · have hl := (((Leaves.enter hent).trans hown).trans hin.leaves).trans hnext.leaves
    simpa [Tree.ids, Tree.hoisted] using hl

end Reading

/-- A chain that was followed to its end, `n` being the most blocks that it may have. -/
theorem follow_ok {c : Context} {expression : List String → String → Walk (Option (String × Order))}
    {chain : List String → String → Walk String}
    (he : ∀ path, ReadsOperands c (expression path)) (hc : ∀ path, ReadsChains c .chain (chain path))
    (n : Nat) {path : List String} {mayBeEntry : Bool} {id code : String} {t t' : Trail}
    (h : outcome (follow c (fun path => applyRule c (expression path) (chain path)) n path
      mayBeEntry id) t = (.ok code, t')) :
    ∃ tree, Found c (if mayBeEntry then .top else .chain) (some id) t t' tree ∧
      code = tree.chainText c := by
  induction n generalizing path mayBeEntry id code t with
  | zero => simp [follow] at h
  | succ n ih =>
    obtain ⟨b, u, hent, h⟩ := ok_of_outcome_bind h
    obtain ⟨own, w, hown, h⟩ := ok_of_outcome_bind h
    obtain ⟨inputs, v, hv, hi, rfl, hadm⟩ := stepText_ok (he _) (hc _) hown
    have hnext : (if mayBeEntry then Place.top else .chain).next? b = b.next := by
      cases mayBeEntry <;> rfl
    cases hn : b.next with
    | none =>
      simp only [hn] at h
      obtain ⟨rfl, rfl⟩ := ok_of_outcome_pure h
      have hleaf := Found.leaf c .chain w
      rw [← hn, ← hnext] at hleaf
      exact ⟨_, Found.node hent hv hi hadm hleaf, by simp [Tree.chainText]⟩
    | some next =>
      simp only [hn] at h
      obtain ⟨rest, x, hrest, h⟩ := ok_of_outcome_bind h
      obtain ⟨rfl, rfl⟩ := ok_of_outcome_pure h
      obtain ⟨tail, htail, rfl⟩ := ih hrest
      have hfollow : Found c .chain (some next) w x tail := by simpa using htail
      rw [← hn, ← hnext] at hfollow
      exact ⟨_, Found.node hent hv hi hadm hfollow, by simp [Tree.chainText]⟩

theorem walk_ok (c : Context) (depth : Nat) :
    (∀ path, ReadsOperands c (expression c depth path)) ∧
      ∀ path mayBeEntry, ReadsChains c (if mayBeEntry then .top else .chain)
        (chain c depth path mayBeEntry) := by
  -- By induction on the depth, which only calls from a block to what is in its slots use up.
  induction depth with
  | zero => exact ⟨fun path _ _ _ _ h => by simp [expression] at h,
      fun path _ _ _ _ _ h => by simp [chain] at h⟩
  | succ depth ih =>
    obtain ⟨he, hc⟩ := ih
    have hc : ∀ path, ReadsChains c .chain (chain c depth path false) := fun path => by
      simpa using hc path false
    constructor
    · intro path id t r t' h
      rw [expression] at h
      obtain ⟨b, u, hent, h⟩ := ok_of_outcome_bind h
      obtain ⟨inputs, v, hv, hi, rfl, hadm⟩ := valueText_ok (he _) (hc _) h
      exact ⟨_, Found.node hent hv hi hadm (Found.leaf c .chain _), by simp [Tree.operand]⟩
    · intro path mayBeEntry id t code t' h
      rw [chain] at h
      exact follow_ok he hc _ h

/-- How a root is walked: it is looked up and refused, or it is read as an operand or as a chain, as
its place says. -/
theorem root_cases (c : Context) (depth : Nat) (id : String) :
    (c.workspace.get? id = none ∧ root c depth id = fail (.missing id)) ∨
      (∃ b, c.workspace.get? id = some b ∧ b.enabled = true ∧
        c.catalogue.shape? b.typeId = none ∧ root c depth id = fail (.unknownType b.id b.typeId)) ∨
      (c.rootPlace id = .operand ∧
        root c depth id = expression c depth [] id >>= fun r => pure ((r.map Prod.fst).getD "")) ∨
      (c.rootPlace id = .top ∧ root c depth id = chain c depth [] true id) := by
  unfold root
  cases hb : c.workspace.get? id with
  | none =>
    rw [lookup_of_none hb]
    exact .inl ⟨rfl, rfl⟩
  | some b =>
    rw [lookup_of_some hb, pure_bind]
    right
    cases hen : b.enabled with
    | false =>
      refine .inr (.inr ⟨?_, rfl⟩)
      cases hs : c.catalogue.shape? b.typeId <;> simp [Context.rootPlace, hb, hs, hen]
    | true =>
      cases hs : c.catalogue.shape? b.typeId with
      | none =>
        rw [if_pos rfl, shapeOf_of_none hs]
        exact .inl ⟨b, rfl, hen, hs, rfl⟩
      | some shape =>
        rw [if_pos rfl, shapeOf_of_some hs, pure_bind]
        right
        cases hv : shape.isValue with
        | false => exact .inr ⟨by simp [Context.rootPlace, hb, hs, hv], rfl⟩
        | true =>
          refine .inl ⟨by simp [Context.rootPlace, hb, hs, hen, hv], ?_⟩
          rw [if_pos rfl]
          refine bind_congr fun r => ?_
          cases r <;> rfl

theorem root_ok {c : Context} {depth : Nat} {id code : String} {t t' : Trail}
    (h : outcome (root c depth id) t = (.ok code, t')) :
    ∃ tree, Found c (c.rootPlace id) (some id) t t' tree ∧
      code = tree.rootText c (c.rootPlace id) := by
  obtain ⟨he, hc⟩ := walk_ok c depth
  rcases root_cases c depth id with ⟨-, hr⟩ | ⟨b, -, -, -, hr⟩ | ⟨hp, hr⟩ | ⟨hp, hr⟩
  · simp [hr] at h
  · simp [hr] at h
  · rw [hr] at h
    obtain ⟨r, u, hr, h⟩ := ok_of_outcome_bind h
    obtain ⟨rfl, rfl⟩ := ok_of_outcome_pure h
    obtain ⟨tree, hf, rfl⟩ := he _ _ _ _ _ hr
    rw [hp]
    exact ⟨tree, hf, rfl⟩
  · rw [hr] at h
    obtain ⟨tree, hf, rfl⟩ := hc [] true _ _ _ _ h
    rw [hp]
    exact ⟨tree, by simpa using hf, rfl⟩

/-- What a walk over some roots has found, the first of them being the entry `i` of the list. -/
structure FoundForest (c : Context) (i : Nat) (roots : List String) (t t' : Trail)
    (trees : List Tree) : Prop where
  unfold : UnfoldRoots c roots trees
  admitted : ∀ v ∈ forestVisits c i roots trees, c.Admits v.place v.block
  leaves : Leaves t t' (trees.flatMap Tree.ids) (trees.flatMap (Tree.hoisted c))

theorem rootTexts_ok {c : Context} {depth : Nat} (i : Nat) {roots texts : List String}
    {t t' : Trail} (h : outcome (rootTexts c depth roots) t = (.ok texts, t')) :
    ∃ trees, FoundForest c i roots t t' trees ∧
      texts = List.zipWith (fun id tree => tree.rootText c (c.rootPlace id)) roots trees := by
  induction roots generalizing i texts t with
  | nil =>
    simp only [rootTexts] at h
    obtain ⟨rfl, rfl⟩ := ok_of_outcome_pure h
    exact ⟨[], ⟨.nil, by simp [forestVisits], .refl t⟩, rfl⟩
  | cons id roots ih =>
    obtain ⟨code, u, hroot, h⟩ := ok_of_outcome_bind h
    obtain ⟨others, v, hothers, h⟩ := ok_of_outcome_bind h
    obtain ⟨rfl, rfl⟩ := ok_of_outcome_pure h
    obtain ⟨tree, hf, rfl⟩ := root_ok hroot
    obtain ⟨trees, hr, rfl⟩ := ih (i + 1) hothers
    refine ⟨tree :: trees, ⟨.cons hf.unfolds hr.unfold, ?_, hf.leaves.trans hr.leaves⟩, rfl⟩
    intro v hv
    rcases List.mem_append.mp hv with hv | hv
    · exact hf.admitted _ v hv
    · exact hr.admitted v hv

/-- A program that was generated comes from a pass that ended well. -/
theorem pass_of_generate {c : Context} {roots : List String} {text : String}
    (h : generate c roots = .ok text) :
    ∃ texts t, outcome (rootTexts c c.depth roots) {} = (.ok texts, t) ∧
      text = assemble t.definitions (joinRoots texts) := by
  rw [generate, pass_eq_outcome] at h
  rcases ho : outcome (rootTexts c c.depth roots) {} with ⟨(f | id) | texts, t⟩
  · simp [ho] at h
  · simp [ho] at h
  · simp only [ho, Except.ok.injEq] at h
    exact ⟨texts, t, rfl, h.symm⟩

theorem assemble_eq_forestText (c : Context) (roots : List String) (trees : List Tree) :
    assemble (({} : Trail).extend [] (trees.flatMap (Tree.hoisted c))).definitions
      (joinRoots (List.zipWith (fun id tree => tree.rootText c (c.rootPlace id)) roots trees)) =
      forestText c roots trees := by
  have htable : (({} : Trail).extend [] (trees.flatMap (Tree.hoisted c))).definitions =
      Table.ofList (trees.flatMap (Tree.hoisted c)) := rfl
  have hempty (d : Table String) : d.isEmpty = true ↔ d.values = [] := by
    simp [Table.isEmpty, Table.values]
  have hfilter (l : List String) : l.filter (fun s => !s.isEmpty) = l.filter (· ≠ "") := by
    apply List.filter_congr
    intro s _
    by_cases hs : s = "" <;> simp [hs]
  simp only [assemble, joinRoots, joinDefinitions, forestText, htable, hempty, hfilter]
  split_ifs <;> simp

/-- A program is the text of the trees that its roots unfold to. -/
theorem forestText_of_generate {c : Context} {roots : List String} {text : String} {trees : List Tree}
    (h : generate c roots = .ok text) (ht : UnfoldRoots c roots trees) :
    text = forestText c roots trees := by
  obtain ⟨texts, t, ho, rfl⟩ := pass_of_generate h
  obtain ⟨trees', hf, rfl⟩ := rootTexts_ok 0 ho
  rw [ht.unique hf.unfold, ← assemble_eq_forestText, hf.leaves.trail]
  rfl

/-- The guarded walk refines the reading of trees: a program is the text of the trees that its roots
unfold to, in one way. -/
theorem generate_eq_forestText (c : Context) (roots : List String) (text : String)
    (h : generate c roots = .ok text) :
    ∃ trees, UnfoldRoots c roots trees ∧ (∀ trees', UnfoldRoots c roots trees' → trees' = trees) ∧
      text = forestText c roots trees := by
  obtain ⟨texts, t, ho, rfl⟩ := pass_of_generate h
  obtain ⟨trees, hf, rfl⟩ := rootTexts_ok 0 ho
  refine ⟨trees, hf.unfold, fun _ h' => h'.unique hf.unfold, ?_⟩
  rw [hf.leaves.trail, ← assemble_eq_forestText]
  rfl

/-- A loop around an if block with three branches, one absent operand, a block that is not enabled
and one that hoists. -/
def sampleWorkspace : Workspace :=
  Document.workspaceOf
    [{ id := "l", typeId := "arduino_loop", statements := Table.ofList [("LOOP", "i")] },
      { id := "i", typeId := "arduino_if_else", mutation := ⟨1, true⟩
        values := Table.ofList [("IF0", "c")]
        statements := Table.ofList [("DO0", "d"), ("ELSE", "w")] },
      { id := "c", typeId := "arduino_compare", values := Table.ofList [("A", "n")] },
      { id := "n", typeId := "arduino_number" },
      { id := "d", typeId := "arduino_delay", enabled := false, next := some "s" },
      { id := "s", typeId := "arduino_servo_define" },
      { id := "w", typeId := "arduino_while" }]

def sampleContext : Context := ⟨Arduino.catalogue, Rules.builtin, sampleWorkspace⟩

def sampleText : String :=
  "#include <Servo.h>\nServo myservo;\nint pos = 0;\n\nvoid loop() \x7b\n  if (0 == 0) \x7b\n" ++
    "  \x7d\n  else if (false) \x7b\n  \x7d\n  else \x7b\n    while (false) \x7b\n    \x7d\n" ++
    "  \x7d\n\x7d\n"

theorem generate_sample : generate sampleContext ["l"] = .ok sampleText := by
  have h : (generate sampleContext ["l"]).toOption = some sampleText := by decide +kernel
  exact eq_ok_of_toOption h

theorem generate_eq_forestText_sample :
    generate sampleContext ["l"] = .ok sampleText ∧
      ∃ trees, UnfoldRoots sampleContext ["l"] trees ∧
        (∀ trees', UnfoldRoots sampleContext ["l"] trees' → trees' = trees) ∧
        sampleText = forestText sampleContext ["l"] trees :=
  ⟨generate_sample, generate_eq_forestText sampleContext ["l"] sampleText generate_sample⟩

end BlockSketch.Program
