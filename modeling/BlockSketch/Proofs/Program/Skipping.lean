import BlockSketch.Proofs.Document.Coverage
import BlockSketch.Proofs.Program.Arrangement
import BlockSketch.Proofs.Program.Editing

namespace BlockSketch

/-- Links a socket to another block, or empties it. -/
def Block.relink (b : Block) (s : Socket) : Option String → Block
  | some n => b.plug n s
  | none => b.unplug s

theorem Block.linked?_relink (b : Block) (s s' : Socket) (target : Option String) :
    (b.relink s target).linked? s' = if s' = s then target else b.linked? s' := by
  cases target with
  | none => exact b.linked?_unplug s s'
  | some n => exact b.linked?_plug n s s'

/-- Takes the block `b` away from the socket where it stands. In a chain the block that follows it is
linked there instead. -/
def Workspace.takeOut (w : Workspace) (parent : String) (s : Socket) (b : Block) :
    Except WorkspaceError (Option String × Workspace) :=
  match (Program.placeAt s).next? b with
  | some next => w.connect parent s next
  | none => w.disconnect parent s

theorem Workspace.takeOut_eq {w : Workspace} {parent : String} {s : Socket} {b p : Block}
    (hp : w.get? parent = some p)
    (hn : ∀ n, (Program.placeAt s).next? b = some n → ∃ child, w.get? n = some child) :
    w.takeOut parent s b = .ok (p.linked? s,
      ⟨w.blocks.modify parent (·.relink s ((Program.placeAt s).next? b))⟩) := by
  unfold takeOut
  cases hnext : (Program.placeAt s).next? b with
  | none => exact disconnect_of_some s hp
  | some n =>
    obtain ⟨child, hchild⟩ := hn n hnext
    exact connect_of_some s hchild hp

namespace Program

/-- The context in which one socket of one block is linked anew. -/
def Context.relink (c : Context) (parent : String) (s : Socket) (target : Option String) : Context :=
  { c with workspace := ⟨c.workspace.blocks.modify parent (·.relink s target)⟩ }

def relinkAt (parent : String) (s : Socket) (target : Option String) (i : String) (b : Block) : Block :=
  if i = parent then b.relink s target else b

section Relinked

variable (c : Context) (parent : String) (s : Socket) (target : Option String) (i : String)

theorem relinkAt_same (b : Block) : ∃ statements values next, relinkAt parent s target i b =
    { b with statements := statements, values := values, next := next } := by
  unfold relinkAt
  split_ifs
  · cases target <;> cases s <;> exact ⟨_, _, _, rfl⟩
  · exact ⟨_, _, _, rfl⟩

theorem get?_relink : (c.relink parent s target).workspace.get? i =
    (c.workspace.get? i).map (relinkAt parent s target i) :=
  c.workspace.get?_modify parent _ i

theorem reads_relink (b : Block) :
    (c.relink parent s target).reads (relinkAt parent s target i b) = c.reads b := by
  obtain ⟨_, _, _, hb⟩ := relinkAt_same parent s target i b
  rw [hb]
  rfl

theorem ownHoisted_relink (b : Block) :
    ownHoisted (c.relink parent s target) (relinkAt parent s target i b) = ownHoisted c b := by
  obtain ⟨_, _, _, hb⟩ := relinkAt_same parent s target i b
  rw [hb]
  rfl

theorem blockText_relink (b : Block) (chain : Socket → String)
    (operand : Socket → Option (String × Order)) :
    blockText (c.relink parent s target) (relinkAt parent s target i b) chain operand =
      blockText c b chain operand := by
  obtain ⟨_, _, _, hb⟩ := relinkAt_same parent s target i b
  rw [hb]
  rfl

theorem admits_relink (b : Block) (place : Place) :
    (c.relink parent s target).Admits place (relinkAt parent s target i b) ↔ c.Admits place b := by
  obtain ⟨_, _, _, hb⟩ := relinkAt_same parent s target i b
  simp only [Context.Admits, Rule.fault?_eq_none_iff]
  rw [hb]
  rfl

theorem rootPlace_relink : (c.relink parent s target).rootPlace i = c.rootPlace i := by
  unfold Context.rootPlace
  rw [get?_relink]
  cases hg : c.workspace.get? i with
  | none => rfl
  | some b =>
    obtain ⟨_, _, _, hb⟩ := relinkAt_same parent s target i b
    simp only [Option.map_some, hb]
    rfl

end Relinked

/-- The block `id` is not enabled, and is linked at a socket of another block. -/
structure Skipped (c : Context) (parent : String) (s : Socket) (id : String) (b : Block) : Prop where
  block : c.workspace.get? id = some b
  disabled : b.enabled = false
  linked : ∃ p, c.workspace.get? parent = some p ∧ p.linked? s = some id
  apart : parent ≠ id

abbrev Context.without (c : Context) (parent : String) (s : Socket) (b : Block) : Context :=
  c.relink parent s ((placeAt s).next? b)

/-- What stands at a place once the block `id` is passed over there. -/
def passOver (id : String) (b : Block) (place : Place) (at? : Option String) : Option String :=
  if at? = some id then place.next? b else at?

/-- All visits are to blocks that may stand where they are, and only one link leads to the block `id`. -/
def OneWay (c : Context) (parent : String) (s : Socket) (id : String) (visits : List Visit) : Prop :=
  ∀ v ∈ visits, c.Admits v.place v.block ∧ (v.id = id → v.reference = .link parent s)

/-- A tree says the same as another one in another context, with some of its blocks only. -/
structure Tree.Replaces (c c' : Context) (place : Place) (t t' : Tree) : Prop where
  alike : t.Alike c c' t'
  ids : t'.ids.Sublist t.ids
  admitted : ∀ r, ∀ v ∈ t'.visits r place, c'.Admits v.place v.block

structure Inputs.Replaces (c c' : Context) (i i' : Inputs) : Prop where
  alike : i.Alike c c' i'
  ids : i'.ids.Sublist i.ids
  admitted : ∀ id, ∀ v ∈ i'.visits id, c'.Admits v.place v.block

section Replaced

variable {c c' : Context}

theorem Tree.Replaces.leaf (place : Place) : Tree.Replaces c c' place .leaf .leaf :=
  ⟨⟨rfl, rfl, rfl⟩, .slnil, by simp [Tree.visits]⟩

theorem Inputs.Replaces.nil : Inputs.Replaces c c' .nil .nil :=
  ⟨⟨rfl, rfl, rfl⟩, .slnil, by simp [Inputs.visits]⟩

theorem Inputs.Replaces.cons {s : Socket} {t t' : Tree} {others others' : Inputs}
    (ht : t.Replaces c c' (placeAt s) t') (ho : others.Replaces c c' others') :
    Inputs.Replaces c c' (.cons s t others) (.cons s t' others') := by
  refine ⟨⟨?_, ?_, ?_⟩, ht.ids.append ho.ids, ?_⟩
  · funext s'
    simp only [Inputs.chainText, ht.alike.chain, ho.alike.chain]
  · funext s'
    simp only [Inputs.operand, ht.alike.operand, ho.alike.operand]
  · simp only [Inputs.hoisted, ht.alike.hoisted, ho.alike.hoisted]
  · intro id v hv
    rcases List.mem_append.mp hv with hv | hv
    · exact ht.admitted _ v hv
    · exact ho.admitted _ v hv

theorem operand_of_chain {t : Tree} (h : ∀ r, ∀ v ∈ t.visits r .chain, c.Admits v.place v.block) :
    t.operand c = none := by
  cases t with
  | leaf => rfl
  | node id b inputs next =>
    have hadmits : c.Admits .chain b := h (.root 0) ⟨.root 0, .chain, id, b⟩ List.mem_cons_self
    unfold Tree.operand blockText
    split_ifs with hen
    · obtain ⟨shape, rule, hs, hr, -, hout, -⟩ := hadmits hen
      have houtput := rule.output_render b.mutation (fieldOf shape b)
        (slotText shape (rule.outer (fieldOf shape b)) (inputs.chainText c) (inputs.operand c))
      rw [hout] at houtput
      simp only [hs, hr]
      generalize rule.render b.mutation (fieldOf shape b) _ = r at houtput ⊢
      cases r with
      | statement code => rfl
      | value code order => cases houtput
    · rfl

end Replaced

section Trees

variable {c : Context} {parent : String} {s : Socket} {id : String} {b : Block}

theorem Tree.Replaces.node {place : Place} {i : String} {bi : Block} {inputs inputs' : Inputs}
    {next next' : Tree} (hi : inputs.Replaces c (c.without parent s b) inputs')
    (hn : next.Replaces c (c.without parent s b) .chain next') (hadmits : c.Admits place bi) :
    Tree.Replaces c (c.without parent s b) place (.node i bi inputs next)
      (.node i (relinkAt parent s ((placeAt s).next? b) i bi) inputs' next') := by
  refine ⟨⟨?_, ?_, ?_⟩, (hi.ids.append hn.ids).cons_cons i, ?_⟩
  · simp only [Tree.chainText, blockText_relink, hi.alike.chain, hi.alike.operand, hn.alike.chain]
  · simp only [Tree.operand, blockText_relink, hi.alike.chain, hi.alike.operand]
  · simp only [Tree.hoisted, ownHoisted_relink, hi.alike.hoisted, hn.alike.hoisted]
  · intro r v hv
    simp only [Tree.visits, List.mem_cons, List.mem_append] at hv
    rcases hv with rfl | hv | hv
    · exact (admits_relink ..).mpr hadmits
    · exact hi.admitted _ v hv
    · exact hn.admitted _ v hv

/-- The block that is taken out says nothing itself. -/
theorem Tree.Replaces.skip (h : Skipped c parent s id b) {next next' : Tree}
    (hn : next.Replaces c (c.without parent s b) .chain next') :
    Tree.Replaces c (c.without parent s b) .chain (.node id b .nil next) next' := by
  have hnone (chain : Socket → String) (operand : Socket → Option (String × Order)) :
      blockText c b chain operand = none := if_neg (by simp [h.disabled])
  refine ⟨⟨?_, ?_, ?_⟩, hn.ids.cons id, hn.admitted⟩
  · simp only [Tree.chainText, hnone, statementText, String.empty_append, hn.alike.chain]
  · simp only [Tree.operand, hnone, operandText?, operand_of_chain hn.admitted]
  · simp [Tree.hoisted, Inputs.hoisted, ownHoisted, h.disabled, hn.alike.hoisted]

/-- Where each link of a block leads once the block `id` is taken out. -/
theorem linked?_without (h : Skipped c parent s id b) {i : String} {bi : Block} {s₀ : Socket}
    (hi : c.workspace.get? i = some bi)
    (hone : bi.linked? s₀ = some id → Reference.link i s₀ = .link parent s) :
    (relinkAt parent s ((placeAt s).next? b) i bi).linked? s₀ =
      passOver id b (placeAt s₀) (bi.linked? s₀) := by
  unfold passOver relinkAt
  by_cases hid : bi.linked? s₀ = some id
  · cases hone hid
    rw [if_pos rfl, if_pos hid, Block.linked?_relink, if_pos rfl]
  · rw [if_neg hid]
    split_ifs with hp
    · subst hp
      obtain ⟨p, hparent, hlinked⟩ := h.linked
      rw [hi, Option.some.injEq] at hparent
      subst hparent
      rw [Block.linked?_relink, if_neg]
      rintro rfl
      exact hid hlinked
    · rfl

theorem next?_without (h : Skipped c parent s id b) {i : String} {bi : Block} {place : Place}
    (hi : c.workspace.get? i = some bi)
    (hone : place.next? bi = some id → Reference.link i .next = .link parent s) :
    place.next? (relinkAt parent s ((placeAt s).next? b) i bi) =
      passOver id b .chain (place.next? bi) := by
  unfold Place.next? at hone ⊢
  by_cases hp : place = .operand
  · simp [hp, passOver]
  · rw [if_neg hp] at hone
    rw [if_neg hp, if_neg hp]
    have hlinked : bi.linked? .next = some id → Reference.link i .next = .link parent s := hone
    exact linked?_without h hi hlinked

/-- What follows the block that is taken out replaces it. As an operand it is followed by nothing. -/
theorem Skipped.replaced (h : Skipped c parent s id b) {place : Place} (hp : place = placeAt s)
    {next next' : Tree} (hu : next'.Unfolds (c.without parent s b) .chain (place.next? b))
    (hn : next.Replaces c (c.without parent s b) .chain next') :
    ∃ t', t'.Unfolds (c.without parent s b) place (place.next? b) ∧
      Tree.Replaces c (c.without parent s b) place (.node id b .nil next) t' := by
  have hskip := Tree.Replaces.skip h hn
  cases place with
  | top => cases s <;> cases hp
  | chain => exact ⟨next', hu, hskip⟩
  | operand =>
    cases next' with
    | node => simp [Tree.Unfolds, Place.next?] at hu
    | leaf => exact ⟨.leaf, rfl, hskip.alike, hskip.ids, by simp [Tree.visits]⟩

mutual

/-- A tree that is reached through one link to the block `id` has a replacement without it. -/
theorem Tree.Unfolds.passOver (h : Skipped c parent s id b) {place : Place} {at? : Option String}
    {r : Reference} : ∀ {t : Tree}, t.Unfolds c place at? → OneWay c parent s id (t.visits r place) →
      (r = .link parent s → place = placeAt s) →
        ∃ t', t'.Unfolds (c.without parent s b) place (Program.passOver id b place at?) ∧
          t.Replaces c (c.without parent s b) place t'
  | .leaf, ht, _, _ => by
    have hnone : at? = none := ht
    subst hnone
    exact ⟨.leaf, rfl, .leaf place⟩
  | .node i bi inputs next, ht, hone, hplace => by
    obtain ⟨rfl, hbi, hi, hn⟩ := ht
    simp only [OneWay, Tree.visits, List.forall_mem_cons, List.forall_mem_append] at hone
    obtain ⟨⟨hadmits, hown⟩, hinputs, hnext⟩ := hone
    have hlink (n : String) (hat : place.next? bi = some n) (hid : n = id) :
        Reference.link i .next = .link parent s := by
      obtain ⟨b', hv⟩ := hn.head_visit hat (.link i .next)
      exact (hnext _ hv).2 hid
    obtain ⟨next', hunfolds, hreplaces⟩ := hn.passOver h hnext fun he => by cases he; rfl
    by_cases hid : i = id
    · -- The block itself: what follows it is its replacement.
      subst hid
      obtain rfl : bi = b := Option.some.inj (hbi.symm.trans h.block)
      have hreads : c.reads bi = [] := if_neg (by simp [h.disabled])
      rw [hreads] at hi
      cases inputs with
      | cons => simp [Inputs.Unfold] at hi
      | nil =>
        have hnot : Program.passOver i bi .chain (place.next? bi) = place.next? bi := by
          apply if_neg
          intro hat
          cases hlink i hat rfl
          exact h.apart rfl
        have hat : Program.passOver i bi place (some i) = place.next? bi := if_pos rfl
        rw [hnot] at hunfolds
        rw [hat]
        exact h.replaced (hplace (hown rfl)) hunfolds hreplaces
    · obtain ⟨inputs', hunfold, hreplace⟩ := hi.passOver h hbi hinputs
      refine ⟨.node i (relinkAt parent s ((placeAt s).next? b) i bi) inputs' next',
        ⟨?_, ?_, ?_, ?_⟩, .node hreplace hreplaces hadmits⟩
      · exact if_neg fun he => hid (Option.some.inj he)
      · rw [get?_relink, hbi]
        rfl
      · rw [reads_relink]
        exact hunfold
      · rw [next?_without h hbi fun hat => hlink id hat rfl]
        exact hunfolds

theorem Inputs.Unfold.passOver (h : Skipped c parent s id b) {i : String} {bi : Block}
    {sockets : List Socket} : ∀ {inputs : Inputs}, inputs.Unfold c bi sockets →
      c.workspace.get? i = some bi → OneWay c parent s id (inputs.visits i) →
        ∃ inputs', inputs'.Unfold (c.without parent s b)
            (relinkAt parent s ((placeAt s).next? b) i bi) sockets ∧
          inputs.Replaces c (c.without parent s b) inputs'
  | .nil, hu, _, _ => ⟨.nil, hu, .nil⟩
  | .cons s₀ t others, hu, hbi, hone => by
    obtain ⟨rest, rfl, ht, ho⟩ := hu
    simp only [OneWay, Inputs.visits, List.forall_mem_append] at hone
    have hlink (hat : bi.linked? s₀ = some id) : Reference.link i s₀ = .link parent s := by
      obtain ⟨b', hv⟩ := ht.head_visit hat (.link i s₀)
      exact (hone.1 _ hv).2 rfl
    obtain ⟨t', hunfolds, hreplaces⟩ := ht.passOver h hone.1 fun he => by cases he; rfl
    obtain ⟨others', hunfold, hreplace⟩ := ho.passOver h hbi hone.2
    refine ⟨.cons s₀ t' others', ⟨rest, rfl, ?_, hunfold⟩, .cons hreplaces hreplace⟩
    rw [linked?_without h hbi hlink]
    exact hunfolds

end

end Trees

/-- The trees of some roots say the same as others in another context, with some of their blocks only;
the first root is the entry `i` of the list. -/
structure ReplacesForest (c c' : Context) (i : Nat) (roots : List String) (trees trees' : List Tree) :
    Prop where
  ids : (trees'.flatMap Tree.ids).Sublist (trees.flatMap Tree.ids)
  admitted : ∀ v ∈ forestVisits c' i roots trees', c'.Admits v.place v.block
  hoisted : trees.flatMap (Tree.hoisted c) = trees'.flatMap (Tree.hoisted c')
  texts : List.zipWith (fun id tree => tree.rootText c (c.rootPlace id)) roots trees =
    List.zipWith (fun id tree => tree.rootText c' (c'.rootPlace id)) roots trees'

section Forests

variable {c : Context} {parent : String} {s : Socket} {id : String} {b : Block} {roots : List String}
  {trees : List Tree}

theorem UnfoldRoots.passOver (h : Skipped c parent s id b) (hu : UnfoldRoots c roots trees) :
    ∀ i, id ∉ roots → OneWay c parent s id (forestVisits c i roots trees) →
      ∃ trees', UnfoldRoots (c.without parent s b) roots trees' ∧
        ReplacesForest c (c.without parent s b) i roots trees trees' := by
  induction hu with
  | nil => exact fun i _ _ => ⟨[], .nil, .slnil, by simp [forestVisits], rfl, rfl⟩
  | @cons root tree roots trees ht _ ih =>
    intro i hid hone
    simp only [OneWay, forestVisits, List.forall_mem_append] at hone
    rw [List.mem_cons, not_or] at hid
    obtain ⟨tree', hunfolds, hreplaces⟩ := ht.passOver h hone.1 (by simp)
    obtain ⟨trees', hunfold, hforest⟩ := ih (i + 1) hid.2 hone.2
    have hplace : (c.without parent s b).rootPlace root = c.rootPlace root := rootPlace_relink ..
    have hat : Program.passOver id b (c.rootPlace root) (some root) = some root :=
      if_neg fun he => hid.1 (Option.some.inj he).symm
    rw [hat, ← hplace] at hunfolds
    refine ⟨tree' :: trees', .cons hunfolds hunfold, ?_, ?_, ?_, ?_⟩
    · exact hreplaces.ids.append hforest.ids
    · intro v hv
      rcases List.mem_append.mp hv with hv | hv
      · rw [hplace] at hv
        exact hreplaces.admitted _ v hv
      · exact hforest.admitted v hv
    · simp only [List.flatMap_cons, hreplaces.alike.hoisted, hforest.hoisted]
    · simp only [List.zipWith_cons_cons, hplace, hreplaces.alike.rootText, hforest.texts]

theorem ReplacesForest.forestText_eq {c c' : Context} {i : Nat} {trees' : List Tree}
    (h : ReplacesForest c c' i roots trees trees') :
    forestText c roots trees = forestText c' roots trees' := by
  unfold forestText
  rw [h.hoisted, h.texts]

/-- If a walk leads to a block that is not enabled through one link only, then there is the same program
without the block. -/
theorem generate_without (h : Skipped c parent s id b) (hroot : id ∉ roots)
    (hone : ∀ r place, Walked c roots r place id → r = .link parent s) {text : String}
    (hg : generate c roots = .ok text) : generate (c.without parent s b) roots = .ok text := by
  obtain ⟨texts, t, ho, -⟩ := pass_of_generate hg
  obtain ⟨trees, hf, -⟩ := rootTexts_ok 0 ho
  have hvisits : OneWay c parent s id (forestVisits c 0 roots trees) := by
    intro v hv
    refine ⟨hf.admitted v hv, ?_⟩
    rintro rfl
    exact hone _ _ (hf.unfold.walked 0 (by simp) v hv).reference
  obtain ⟨trees', hunfold, hforest⟩ := hf.unfold.passOver h 0 hroot hvisits
  -- The trees that are left are found by a walk from the start, so that there is a program.
  have hfound : FoundForest (c.without parent s b) 0 roots {} (({} : Trail).extend
      (trees'.flatMap Tree.ids) (trees'.flatMap (Tree.hoisted (c.without parent s b)))) trees' :=
    ⟨hunfold, hforest.admitted, hf.leaves.nodup.sublist hforest.ids, by simp, rfl⟩
  obtain ⟨text', hg'⟩ := hfound.sound.exists_generate
  rw [hg', forestText_of_generate hg' hunfold, forestText_of_generate hg hf.unfold,
    hforest.forestText_eq]

end Forests

/-- Not enabling a block is taking it out: the program is the same if what follows the block is
linked in its place. -/
theorem generate_takeOut (c : Context) (roots : List String) (text id : String) (b : Block)
    (hg : generate c roots = .ok text) (hmet : id ∈ entered c roots) (hroot : id ∉ roots)
    (hb : c.workspace.get? id = some b) (hd : b.enabled = false) :
    ∃ parent s, (∀ r place, Walked c roots r place id ↔ r = .link parent s ∧ place = placeAt s) ∧
      ∃ w, c.workspace.takeOut parent s b = .ok (some id, w) ∧
        generate { c with workspace := w } roots = .ok text := by
  have hsound := sound_of_generate hg
  obtain ⟨r, place, hw⟩ := ((entered_iff_walked hg).2 id).mp hmet
  cases hw with
  | root hi => exact absurd (List.mem_of_getElem? hi) hroot
  | @link r place parent _ p s hparent hp hs hn =>
    have hw : Walked c roots (.link parent s) (placeAt s) id := .link hparent hp hs hn
    have hone : ∀ r place, Walked c roots r place id → r = .link parent s :=
      fun r place hw' => hsound.unshared _ _ _ _ id hw' hw
    have hapart : parent ≠ id := by
      rintro rfl
      exact hsound.not_leadsTo_self hparent (.single ⟨r, place, p, s, hparent, hp, hs, hn⟩)
    have hfollower : ∀ n, (placeAt s).next? b = some n → ∃ child, c.workspace.get? n = some child := by
      intro n hnext
      obtain ⟨hfollows, hlinked⟩ := next?_eq_some (c := c) hnext
      exact hsound.present _ _ n (.link hw hb hfollows hlinked)
    refine ⟨parent, s, fun r' place' => ⟨fun hw' => ?_, ?_⟩, (c.without parent s b).workspace, ?_, ?_⟩
    · obtain rfl := hone r' place' hw'
      cases hw'
      exact ⟨rfl, rfl⟩
    · rintro ⟨rfl, rfl⟩
      exact hw
    · rw [← hn]
      exact Workspace.takeOut_eq hp hfollower
    · exact generate_without ⟨hb, hd, ⟨p, hp, hn⟩, hapart⟩ hroot hone hg

def idleConditionContext : Context :=
  builtinContext (Document.workspaceOf
    [{ id := "w", typeId := "arduino_while", values := Table.ofList [("WHILE0", "x")] },
      { id := "x", typeId := "arduino_boolean", enabled := false }])

theorem generate_takeOut_sample :
    (generate sampleContext ["l"] = .ok sampleText ∧ "d" ∈ entered sampleContext ["l"] ∧
      ∃ b, sampleWorkspace.get? "d" = some b ∧ b.enabled = false ∧ b.next = some "s" ∧
        ∃ parent s, (∀ r place, Walked sampleContext ["l"] r place "d" ↔
            r = .link parent s ∧ place = placeAt s) ∧
          ∃ w, sampleWorkspace.takeOut parent s b = .ok (some "d", w) ∧
            generate { sampleContext with workspace := w } ["l"] = .ok sampleText) ∧
    (generate idleConditionContext ["w"] = .ok "while (false) \x7b\n\x7d\n" ∧
      "x" ∈ entered idleConditionContext ["w"] ∧
      ∃ b, idleConditionContext.workspace.get? "x" = some b ∧ b.enabled = false ∧
        ∃ parent s, (∀ r place, Walked idleConditionContext ["w"] r place "x" ↔
            r = .link parent s ∧ place = placeAt s) ∧
          ∃ w, idleConditionContext.workspace.takeOut parent s b = .ok (some "x", w) ∧
            generate { idleConditionContext with workspace := w } ["w"] =
              .ok "while (false) \x7b\n\x7d\n") := by
  constructor
  · have hmet : "d" ∈ entered sampleContext ["l"] := by decide +kernel
    refine ⟨generate_sample, hmet, _, rfl, rfl, rfl, ?_⟩
    exact generate_takeOut sampleContext ["l"] sampleText "d" _ generate_sample hmet (by decide) rfl rfl
  · have hmet : "x" ∈ entered idleConditionContext ["w"] := by decide +kernel
    have hg : generate idleConditionContext ["w"] = .ok "while (false) \x7b\n\x7d\n" :=
      eq_ok_of_toOption (by decide +kernel)
    refine ⟨hg, hmet, _, rfl, rfl, ?_⟩
    exact generate_takeOut idleConditionContext ["w"] _ "x" _ hg hmet (by decide) rfl rfl

end Program

end BlockSketch
