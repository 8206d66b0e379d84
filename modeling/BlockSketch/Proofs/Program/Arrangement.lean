import BlockSketch.Proofs.Document.Safety
import BlockSketch.Proofs.Program.Hoisting

namespace BlockSketch

/-- Blocks that differ at most in where they lie and in the order of their fields and slots. -/
structure Block.Alike (b b' : Block) : Prop where
  id : b.id = b'.id
  typeId : b.typeId = b'.typeId
  mutation : b.mutation = b'.mutation
  enabled : b.enabled = b'.enabled
  fields : ∀ name, b.fields.get? name = b'.fields.get? name
  links : ∀ s, b.linked? s = b'.linked? s

theorem Block.Alike.symm {b b' : Block} (h : b.Alike b') : b'.Alike b :=
  ⟨h.id.symm, h.typeId.symm, h.mutation.symm, h.enabled.symm, fun name => (h.fields name).symm,
    fun s => (h.links s).symm⟩

namespace Workspace

def Alike (w w' : Workspace) : Prop := ∀ id, Option.Rel Block.Alike (w.get? id) (w'.get? id)

namespace Alike

variable {w w' : Workspace}

theorem cases (h : w.Alike w') (id : String) : w.get? id = none ∧ w'.get? id = none ∨
    ∃ b b', w.get? id = some b ∧ w'.get? id = some b' ∧ b.Alike b' := by
  have hrel := h id
  generalize w.get? id = x at hrel ⊢
  generalize w'.get? id = x' at hrel ⊢
  cases hrel with
  | none => exact .inl ⟨rfl, rfl⟩
  | some hb => exact .inr ⟨_, _, rfl, rfl, hb⟩

theorem symm (h : w.Alike w') : w'.Alike w := by
  intro id
  rcases h.cases id with ⟨hb, hb'⟩ | ⟨b, b', hb, hb', halike⟩ <;> rw [hb, hb']
  · exact .none
  · exact .some halike.symm

theorem get? (h : w.Alike w') {id : String} {b : Block} (hb : w.get? id = some b) :
    ∃ b', w'.get? id = some b' ∧ b.Alike b' := by
  rcases h.cases id with ⟨hnone, -⟩ | ⟨b₀, b', hb₀, hb', halike⟩
  · simp [hnone] at hb
  · rw [hb₀, Option.some.injEq] at hb
    exact ⟨b', hb', hb ▸ halike⟩

/-- Blocks that are moved and inserted in another order are the same blocks. -/
theorem of_perm {blocks blocks' : List Block} (hn : (blocks.map Block.id).Nodup)
    (f : Block → Position) (hp : blocks'.Perm (blocks.map fun b => { b with position := f b })) :
    (Document.workspaceOf blocks).Alike (Document.workspaceOf blocks') := by
  have hn' : (blocks'.map Block.id).Nodup := by
    rw [(hp.map Block.id).nodup_iff, List.map_map]
    exact hn
  intro id
  cases hb : (Document.workspaceOf blocks).get? id with
  | some b =>
    obtain ⟨hm, hid⟩ := (Document.get?_workspaceOf hn).mp hb
    have hm' := hp.mem_iff.mpr (List.mem_map_of_mem hm)
    rw [(Document.get?_workspaceOf hn').mpr ⟨hm', hid⟩]
    exact .some ⟨rfl, rfl, rfl, rfl, fun _ => rfl, fun s => by cases s <;> rfl⟩
  | none =>
    cases hb' : (Document.workspaceOf blocks').get? id with
    | none => exact .none
    | some b' =>
      obtain ⟨hm', hid⟩ := (Document.get?_workspaceOf hn').mp hb'
      obtain ⟨b, hm, rfl⟩ := List.mem_map.mp (hp.mem_iff.mp hm')
      rw [(Document.get?_workspaceOf hn).mpr ⟨hm, hid⟩] at hb
      cases hb

theorem mem_keys (h : w.Alike w') {id : String} (hid : id ∈ w.blocks.keys) :
    id ∈ w'.blocks.keys := by
  obtain ⟨b, hb⟩ : ∃ b, w.get? id = some b := Option.ne_none_iff_exists'.mp fun hnone =>
    (Table.get?_eq_none_iff w.blocks id).mp hnone hid
  obtain ⟨b', hb', -⟩ := h.get? hb
  exact Table.mem_keys_of_get? hb'

theorem mem_linkedIds (h : w.Alike w') {id : String} (hid : id ∈ w.linkedIds) :
    id ∈ w'.linkedIds := by
  rw [linkedIds_eq, List.mem_flatMap] at hid
  obtain ⟨⟨x, b⟩, he, hid⟩ := hid
  obtain ⟨s, hs⟩ := Block.mem_children_iff.mp hid
  obtain ⟨b', hb', halike⟩ := h.get? (Table.get?_eq_some_iff.mpr he)
  exact Workspace.mem_linkedIds hb' ((halike.links s).symm.trans hs)

theorem mem_programRoots (h : w.Alike w') (c : Catalogue) {id : String}
    (hid : id ∈ w.programRoots c) : id ∈ w'.programRoots c := by
  obtain ⟨hkey, hnot⟩ := mem_programRoots_iff.mp hid
  exact mem_programRoots_iff.mpr ⟨h.mem_keys hkey, fun hlinked => hnot (h.symm.mem_linkedIds hlinked)⟩

end Alike

end Workspace

namespace Program

structure Context.Alike (c c' : Context) : Prop where
  catalogue : c.catalogue = c'.catalogue
  rules : c.rules = c'.rules
  workspace : c.workspace.Alike c'.workspace

theorem Context.Alike.symm {c c' : Context} (h : c.Alike c') : c'.Alike c :=
  ⟨h.catalogue.symm, h.rules.symm, h.workspace.symm⟩

section Blocks

variable {c c' : Context} {b b' : Block}

theorem reads_of_alike (h : c.Alike c') (hb : b.Alike b') : c.reads b = c'.reads b' := by
  unfold Context.reads
  rw [hb.enabled, hb.typeId, hb.mutation, h.rules]

theorem follows_of_alike (h : c.Alike c') (hb : b.Alike b') (place : Place) :
    c.follows place b = c'.follows place b' := by
  rw [Context.follows, Context.follows, reads_of_alike h hb]

theorem rootPlace_of_alike (h : c.Alike c') (id : String) : c.rootPlace id = c'.rootPlace id := by
  unfold Context.rootPlace
  rw [h.catalogue]
  rcases h.workspace.cases id with ⟨hb, hb'⟩ | ⟨b, b', hb, hb', halike⟩
  · rw [hb, hb']
  · simp only [hb, hb', halike.typeId, halike.enabled]

theorem readField_of_alike (hb : b.Alike b') (shape : Shape) (name : String) :
    readField shape b name = readField shape b' name := by
  unfold readField
  rw [hb.fields]

theorem fieldOf_of_alike (hb : b.Alike b') (shape : Shape) : fieldOf shape b = fieldOf shape b' := by
  funext name
  unfold fieldOf
  rw [readField_of_alike hb]

theorem ownHoisted_of_alike (h : c.Alike c') (hb : b.Alike b') :
    ownHoisted c b = ownHoisted c' b' := by
  unfold ownHoisted
  rw [hb.enabled, hb.typeId, h.catalogue, h.rules]
  simp only [fieldOf_of_alike hb]

theorem blockText_of_alike (h : c.Alike c') (hb : b.Alike b') (chain : Socket → String)
    (operand : Socket → Option (String × Order)) :
    blockText c b chain operand = blockText c' b' chain operand := by
  unfold blockText
  rw [hb.enabled, hb.typeId, hb.mutation, h.catalogue, h.rules]
  simp only [fieldOf_of_alike hb]

end Blocks

/-- Trees that stand for the same text and hoist the same, each in its context. -/
structure Tree.Alike (c c' : Context) (t t' : Tree) : Prop where
  chain : t.chainText c = t'.chainText c'
  operand : t.operand c = t'.operand c'
  hoisted : t.hoisted c = t'.hoisted c'

structure Inputs.Alike (c c' : Context) (i i' : Inputs) : Prop where
  chain : i.chainText c = i'.chainText c'
  operand : i.operand c = i'.operand c'
  hoisted : i.hoisted c = i'.hoisted c'

section Trees

variable {c c' : Context}

mutual

/-- The same place of contexts that are alike unfolds to trees that are. -/
theorem Tree.Unfolds.alike (h : c.Alike c') {place : Place} {at? : Option String} :
    ∀ {t t' : Tree}, t.Unfolds c place at? → t'.Unfolds c' place at? → t.Alike c c' t'
  | .leaf, .leaf, _, _ => ⟨rfl, rfl, rfl⟩
  | .leaf, .node .., ht, ht' => by simp_all [Tree.Unfolds]
  | .node .., .leaf, ht, ht' => by simp_all [Tree.Unfolds]
  | .node _ b inputs next, .node _ b' inputs' next', ht, ht' => by
    obtain ⟨rfl, hb, hi, hn⟩ := ht
    obtain ⟨he, hb', hi', hn'⟩ := ht'
    cases he
    obtain ⟨b₁, hb₁, halike⟩ := h.workspace.get? hb
    rw [hb', Option.some.injEq] at hb₁
    subst hb₁
    have hplace : place.next? b = place.next? b' := by
      unfold Place.next?
      exact congrArg (if place = .operand then none else ·) (halike.links .next)
    rw [reads_of_alike h halike] at hi
    rw [hplace] at hn
    have hinputs := hi.alike h halike hi'
    have hnext := hn.alike h hn'
    refine ⟨?_, ?_, ?_⟩
    · simp only [Tree.chainText, hinputs.chain, hinputs.operand, hnext.chain,
        blockText_of_alike h halike]
    · simp only [Tree.operand, hinputs.chain, hinputs.operand, blockText_of_alike h halike]
    · simp only [Tree.hoisted, hinputs.hoisted, hnext.hoisted, ownHoisted_of_alike h halike]

theorem Inputs.Unfold.alike (h : c.Alike c') {b b' : Block} (hb : b.Alike b')
    {sockets : List Socket} : ∀ {i i' : Inputs}, i.Unfold c b sockets → i'.Unfold c' b' sockets →
      i.Alike c c' i'
  | .nil, .nil, _, _ => ⟨rfl, rfl, rfl⟩
  | .nil, .cons .., hi, hi' => by simp_all [Inputs.Unfold]
  | .cons .., .nil, hi, hi' => by simp_all [Inputs.Unfold]
  | .cons _ t others, .cons _ t' others', hi, hi' => by
    obtain ⟨r, rfl, ht, ho⟩ := hi
    obtain ⟨r', he, ht', ho'⟩ := hi'
    cases he
    rw [hb.links] at ht
    have hfirst := ht.alike h ht'
    have hothers := ho.alike h hb ho'
    refine ⟨?_, ?_, ?_⟩
    · funext s
      simp only [Inputs.chainText, hfirst.chain, hothers.chain]
    · funext s
      simp only [Inputs.operand, hfirst.operand, hothers.operand]
    · simp only [Inputs.hoisted, hfirst.hoisted, hothers.hoisted]

end

theorem Tree.Alike.rootText {t t' : Tree} (h : t.Alike c c' t') (place : Place) :
    t.rootText c place = t'.rootText c' place := by
  cases place with
  | operand => simp only [Tree.rootText, h.operand]
  | top | chain => exact h.chain

end Trees

section Walks

variable {c c' : Context} {roots roots' : List String}

/-- What is walked in one context is walked in the other: a link as that link, and a root as a root. -/
theorem Walked.alike (h : c.Alike c') (hr : ∀ id ∈ roots, id ∈ roots') {r : Reference}
    {place : Place} {id : String} (hw : Walked c roots r place id) :
    ∃ r', Walked c' roots' r' place id ∧ ∀ x s, r = .link x s ↔ r' = .link x s := by
  induction hw with
  | @root i id hi =>
    obtain ⟨j, hj⟩ := List.mem_iff_getElem?.mp (hr id (List.mem_of_getElem? hi))
    rw [rootPlace_of_alike h]
    exact ⟨.root j, .root hj, by simp⟩
  | @link r place id n b s _ hb hs hn ih =>
    obtain ⟨r', hw', -⟩ := ih
    obtain ⟨b', hb', halike⟩ := h.workspace.get? hb
    rw [follows_of_alike h halike] at hs
    rw [halike.links] at hn
    exact ⟨.link id s, .link hw' hb' hs hn, by simp⟩

theorem hasField_of_alike {b b' : Block} (hb : b.Alike b') (shape : Shape) (name : String) :
    HasField shape b name ↔ HasField shape b' name := by
  rw [← exists_readField_iff, ← exists_readField_iff, readField_of_alike hb]

/-- Soundness does not depend on the order of the roots, if none of them is repeated. -/
theorem Sound.alike (hs : Sound c roots) (h : c'.Alike c) (hr : ∀ id ∈ roots', id ∈ roots)
    (hn : roots'.Nodup) : Sound c' roots' := by
  -- A visit in one context is one in the other, to a block that is alike.
  have hvisit (v : Visit) (hv : v.Walked c' roots') :
      ∃ u : Visit, u.Walked c roots ∧ u.place = v.place ∧ v.block.Alike u.block := by
    obtain ⟨r, hw, -⟩ := hv.reference.alike h hr
    obtain ⟨b, hb, halike⟩ := h.workspace.get? hv.block
    exact ⟨⟨r, v.place, v.id, b⟩, ⟨hw, hb⟩, rfl, halike⟩
  refine ⟨?_, ?_, ?_, ?_⟩
  · intro r place id hw
    obtain ⟨r', hw', -⟩ := hw.alike h hr
    obtain ⟨b, hb⟩ := hs.present r' place id hw'
    obtain ⟨b', hb', -⟩ := h.symm.workspace.get? hb
    exact ⟨b', hb'⟩
  · intro r₁ r₂ place₁ place₂ id hw₁ hw₂
    obtain ⟨r₁', hw₁', hlink₁⟩ := hw₁.alike h hr
    obtain ⟨r₂', hw₂', hlink₂⟩ := hw₂.alike h hr
    have hsame := hs.unshared _ _ _ _ _ hw₁' hw₂'
    subst hsame
    cases r₁ with
    | link x s => exact ((hlink₂ x s).mpr ((hlink₁ x s).mp rfl)).symm
    | root i =>
      cases r₂ with
      | link x s => exact (hlink₁ x s).mpr ((hlink₂ x s).mp rfl)
      | root j =>
        cases hw₁ with
        | root hi =>
          cases hw₂ with
          | root hj =>
            obtain ⟨hlt, -⟩ := List.getElem?_eq_some_iff.mp hi
            rw [(List.getElem?_inj hlt hn).mp (hi.trans hj.symm)]
  · intro v hv hen
    obtain ⟨u, hu, hplace, halike⟩ := hvisit v hv
    rw [halike.enabled] at hen
    rw [h.catalogue, h.rules, halike.typeId, ← hplace]
    exact hs.placed u hu hen
  · intro v hv hen shape rule hshape hrule
    obtain ⟨u, hu, -, halike⟩ := hvisit v hv
    rw [halike.enabled] at hen
    rw [h.catalogue, halike.typeId] at hshape
    rw [h.rules, halike.typeId] at hrule
    simp only [hasField_of_alike halike, fieldOf_of_alike halike]
    exact hs.fields u hu hen shape rule hshape hrule

end Walks

def Context.definitions (c : Context) : Table String := (pass c c.depth c.allRoots).2.definitions

/-- The program of a whole workspace is put together from the texts of its roots. -/
structure Context.Composed (c : Context) (text : String → String) (program : String) : Prop where
  texts : (pass c c.depth c.allRoots).1 = .ok (c.allRoots.map text)
  program : program = headerText c.definitions.values ++
    Text.tidy (String.intercalate "\n" ((c.allRoots.map text).filter fun s => !s.isEmpty))

section Programs

variable {c c' : Context} {program program' : String}

/-- A root has one text, whichever tree it unfolds to. -/
theorem exists_rootText (c : Context) : ∃ text : String → String,
    ∀ id, ∀ tree : Tree, tree.Unfolds c (c.rootPlace id) (some id) →
      tree.rootText c (c.rootPlace id) = text id := by
  have hone (id : String) : ∃ s, ∀ tree : Tree, tree.Unfolds c (c.rootPlace id) (some id) →
      tree.rootText c (c.rootPlace id) = s := by
    by_cases h : ∃ tree : Tree, tree.Unfolds c (c.rootPlace id) (some id)
    · obtain ⟨tree, ht⟩ := h
      exact ⟨tree.rootText c (c.rootPlace id), fun tree' ht' => by rw [ht'.unique ht]⟩
    · exact ⟨"", fun tree ht => absurd ⟨tree, ht⟩ h⟩
  choose text htext using hone
  exact ⟨text, htext⟩

theorem UnfoldRoots.rootTexts_eq {roots : List String} {trees : List Tree} {text : String → String}
    (h : UnfoldRoots c roots trees) (ht : ∀ id ∈ roots, ∀ tree : Tree,
      tree.Unfolds c (c.rootPlace id) (some id) → tree.rootText c (c.rootPlace id) = text id) :
    List.zipWith (fun id tree => tree.rootText c (c.rootPlace id)) roots trees = roots.map text := by
  induction h with
  | nil => rfl
  | cons hfirst _ ih =>
    rw [List.forall_mem_cons] at ht
    rw [List.zipWith_cons_cons, List.map_cons, ht.1 _ hfirst, ih ht.2]

theorem exists_of_mem_left {α β : Type} {R : α → β → Prop} {xs : List α} {ys : List β}
    (h : List.Forall₂ R xs ys) {x : α} (hx : x ∈ xs) : ∃ y ∈ ys, R x y := by
  induction h with
  | nil => cases hx
  | cons hr _ ih =>
    rcases List.mem_cons.mp hx with rfl | hx
    · exact ⟨_, List.mem_cons_self, hr⟩
    · obtain ⟨y, hy, hxy⟩ := ih hx
      exact ⟨y, List.mem_cons_of_mem _ hy, hxy⟩

/-- A program comes from the trees of all roots. -/
theorem exists_trees (h : generateAll c = .ok program) : ∃ trees, UnfoldRoots c c.allRoots trees ∧
    c.definitions = Table.ofList (trees.flatMap (Tree.hoisted c)) ∧
    ∀ text, (∀ id ∈ c.allRoots, ∀ tree : Tree, tree.Unfolds c (c.rootPlace id) (some id) →
      tree.rootText c (c.rootPlace id) = text id) → c.Composed text program := by
  obtain ⟨texts, t, ho, rfl⟩ := pass_of_generate h
  obtain ⟨trees, hf, rfl⟩ := rootTexts_ok 0 ho
  have hpass : pass c c.depth c.allRoots = _ := ho
  have hdefinitions : c.definitions = t.definitions := by rw [Context.definitions, hpass]
  refine ⟨trees, hf.unfold, ?_, ?_⟩
  · rw [hdefinitions, hf.leaves.trail]
    rfl
  · intro text htext
    have htexts := hf.unfold.rootTexts_eq htext
    constructor
    · rw [hpass, htexts]
      rfl
    · rw [assemble_eq_headerText, hdefinitions, htexts]
      rfl

theorem allRoots_of_alike (h : c.Alike c') : ∀ id ∈ c.allRoots, id ∈ c'.allRoots := by
  intro id hid
  unfold Context.allRoots at hid ⊢
  rw [← h.catalogue]
  exact h.workspace.mem_programRoots c.catalogue hid

theorem keys_of_alike (h : c.Alike c') {trees trees' : List Tree}
    (ht : UnfoldRoots c c.allRoots trees) (ht' : UnfoldRoots c' c'.allRoots trees') {k : String}
    (hk : k ∈ (Table.ofList (trees.flatMap (Tree.hoisted c))).keys) :
    k ∈ (Table.ofList (trees'.flatMap (Tree.hoisted c'))).keys := by
  rw [Table.mem_keys_ofList, List.mem_map] at hk ⊢
  obtain ⟨e, he, rfl⟩ := hk
  obtain ⟨tree, htree, he⟩ := List.mem_flatMap.mp he
  obtain ⟨id, hid, hunfolds⟩ := exists_of_mem_left ht.flip htree
  obtain ⟨tree', htree', hunfolds'⟩ := exists_of_mem_left ht' (allRoots_of_alike h id hid)
  rw [← rootPlace_of_alike h] at hunfolds'
  rw [(hunfolds.alike h hunfolds').hoisted] at he
  exact ⟨e, List.mem_flatMap.mpr ⟨tree', htree', he⟩, rfl⟩

theorem exists_generateAll_of_alike (h : c.Alike c') (hp : generateAll c = .ok program) :
    ∃ program', generateAll c' = .ok program' := by
  have hsound : Sound c c.allRoots := sound_of_generate hp
  have hsound' : Sound c' c'.allRoots := hsound.alike h.symm (allRoots_of_alike h.symm)
    (c'.workspace.nodup_programRoots c'.catalogue)
  exact hsound'.exists_generate

end Programs

/-- Moving blocks never breaks a program: each root has the same text wherever its blocks lie, and
the same declarations come first, maybe in another order. -/
theorem program_rearranged (c c' : Context) (h : c.Alike c') (session session' : Session) :
    ((∃ program, (session.graphChanged c).1 = .ok program) ↔
      ∃ program, (session'.graphChanged c').1 = .ok program) ∧
    ∀ program program', (session.graphChanged c).1 = .ok program →
      (session'.graphChanged c').1 = .ok program' →
        ∃ text : String → String, c.Composed text program ∧ c'.Composed text program' ∧
          ∀ k, k ∈ c.definitions.keys ↔ k ∈ c'.definitions.keys := by
  constructor
  · constructor
    · rintro ⟨program, hp⟩
      exact exists_generateAll_of_alike h hp
    · rintro ⟨program, hp⟩
      exact exists_generateAll_of_alike h.symm hp
  · intro program program' hp hp'
    obtain ⟨trees, ht, hd, hcomposed⟩ := exists_trees hp
    obtain ⟨trees', ht', hd', hcomposed'⟩ := exists_trees hp'
    obtain ⟨text, htext⟩ := exists_rootText c
    refine ⟨text, hcomposed text fun id _ => htext id, hcomposed' text ?_, ?_⟩
    · intro id hid tree' hunfolds'
      obtain ⟨tree, -, hunfolds⟩ := exists_of_mem_left ht (allRoots_of_alike h.symm id hid)
      rw [← rootPlace_of_alike h] at hunfolds' ⊢
      rw [← htext id tree hunfolds]
      exact ((hunfolds.alike h hunfolds').rootText _).symm
    · intro k
      rw [hd, hd']
      exact ⟨keys_of_alike h ht ht', keys_of_alike h.symm ht' ht⟩

/-- Two blocks for the servo, a loop, and one for the strip below them. -/
def looseBlocks : List Block :=
  [{ id := "v", typeId := "arduino_servo_define", next := some "a" },
    { id := "a", typeId := "arduino_servo_setup" },
    { id := "l", typeId := "arduino_loop", statements := Table.ofList [("LOOP", "d")] },
    { id := "d", typeId := "arduino_delay" },
    { id := "s", typeId := "neopixel_init", position := ⟨.ofFloat 0.0, .ofFloat 10.0⟩ }]

def looseContext : Context := builtinContext (Document.workspaceOf looseBlocks)

def turnedContext : Context :=
  let position (b : Block) : Position := if b.id = "s" then {} else ⟨.ofFloat 0.0, .ofFloat 5.0⟩
  builtinContext (Document.workspaceOf
    (looseBlocks.map fun b => { b with position := position b }).reverse)

/-- The declarations for the servo and those for the strip. -/
def servoHeader : String := "#include <Servo.h>\nServo myservo;\nint pos = 0;\n"

def stripHeader : String :=
  "#include <Adafruit_NeoPixel.h>\nAdafruit_NeoPixel strip(16, 6, NEO_GRB + NEO_KHZ800);\n"

def loopText : String := "void loop() \x7b\n  delay(1000);\n\x7d\n"

theorem program_rearranged_turned :
    looseContext.Alike turnedContext ∧
      looseContext.allRoots = ["l", "v", "s"] ∧ turnedContext.allRoots = ["l", "s", "v"] ∧
      ∃ program program', (({} : Session).graphChanged looseContext).1 = .ok program ∧
        (({} : Session).graphChanged turnedContext).1 = .ok program' ∧
        program = servoHeader ++ stripHeader ++ "\n" ++ loopText ++
          "\nmyservo.attach(9);\n\nstrip.begin();\nstrip.show();\n" ∧
        program' = stripHeader ++ servoHeader ++ "\n" ++ loopText ++
          "\nstrip.begin();\nstrip.show();\n\nmyservo.attach(9);\n" ∧
        ∃ text : String → String, looseContext.Composed text program ∧
          turnedContext.Composed text program' ∧
          ∀ k, k ∈ looseContext.definitions.keys ↔ k ∈ turnedContext.definitions.keys := by
  have halike : looseContext.Alike turnedContext :=
    ⟨rfl, rfl, .of_perm (by decide) _ (List.reverse_perm _)⟩
  have hloose : (({} : Session).graphChanged looseContext).1 = .ok _ :=
    eq_ok_of_toOption (by decide +kernel : _ = some (servoHeader ++ stripHeader ++ "\n" ++ loopText ++
      "\nmyservo.attach(9);\n\nstrip.begin();\nstrip.show();\n"))
  have hturned : (({} : Session).graphChanged turnedContext).1 = .ok _ :=
    eq_ok_of_toOption (by decide +kernel : _ = some (stripHeader ++ servoHeader ++ "\n" ++ loopText ++
      "\nstrip.begin();\nstrip.show();\n\nmyservo.attach(9);\n"))
  obtain ⟨-, htexts⟩ := program_rearranged looseContext turnedContext halike {} {}
  exact ⟨halike, by decide +kernel, by decide +kernel, _, _, hloose, hturned, rfl, rfl,
    htexts _ _ hloose hturned⟩

end Program

end BlockSketch
