import BlockSketch.Catalogue.Arduino
import BlockSketch.Proofs.Document.Forest

namespace BlockSketch

inductive Nest where
  | node (block : Block) (statements values : List (String × Nest)) (next : Option Nest)

def Nest.block : Nest → Block
  | .node b _ _ _ => b

def Nest.id (t : Nest) : String := t.block.id

def nestSlots (nest? : String → Option Nest) (slots : List (String × String)) :
    Option (List (String × Nest)) :=
  slots.mapM fun e => (nest? e.2).map fun t => (e.1, t)

namespace Workspace

/-- A block with what it links to, at most `n` blocks deep. -/
def nest? (w : Workspace) : Nat → String → Option Nest
  | 0, _ => none
  | n + 1, id => do
    let b ← w.get? id
    let statements ← nestSlots (w.nest? n) b.statements.entries
    let values ← nestSlots (w.nest? n) b.values.entries
    match b.next with
    | none => return .node b statements values none
    | some next => return .node b statements values (some (← w.nest? n next))

/-- The blocks that are not linked, in order of insertion, with what they link to. -/
def nests? (w : Workspace) : Option (List Nest) :=
  (w.unlinked.map Prod.fst).mapM (w.nest? w.size)

end Workspace

def slotIds (slots : List (String × Nest)) : List (String × String) :=
  slots.map fun e => (e.1, e.2.id)

theorem nestSlots_slotIds {nest? : String → Option Nest} {slots : List (String × Nest)}
    (h : ∀ e ∈ slots, nest? e.2.id = some e.2) : nestSlots nest? (slotIds slots) = some slots := by
  induction slots with
  | nil => rfl
  | cons e r ih =>
    rw [List.forall_mem_cons] at h
    have hr := ih h.2
    unfold nestSlots slotIds at hr ⊢
    simp [h.1, hr]

theorem mapM_nest_ids {nest? : String → Option Nest} {nests : List Nest}
    (h : ∀ t ∈ nests, nest? t.id = some t) : (nests.map Nest.id).mapM nest? = some nests := by
  induction nests with
  | nil => rfl
  | cons t r ih =>
    rw [List.forall_mem_cons] at h
    have hr := ih h.2
    simp [h.1, hr]

namespace Document

/-- What a field of a document is on a block: a number or a text as it is, and a truth value as
text. -/
inductive Shows : Json.Value → FieldValue → Prop where
  | whole (n : Int) : Shows (.whole n) (.number (Json.Numeral.whole n).toFloat)
  | real (x : Float) : Shows (.real x) (.number x)
  | text (s : String) : Shows (.text s) (.text s)
  | yes : Shows (.flag true) (.text "true")
  | no : Shows (.flag false) (.text "false")

/-- A block is as an entry of a document says, apart from its links. -/
structure Entry.Describes (e : Entry) (b : Block) : Prop where
  id : e.id = some b.id
  typeId : b.typeId = e.typeId
  position : b.position = e.position
  enabled : b.enabled = e.enabled
  mutation : b.mutation = e.mutation
  fields : List.Forall₂ (fun f g => f.1 = g.1 ∧ Shows f.2 g.2) e.fields b.fields.entries

mutual

/-- A block with what it links to is as a tree says. The slots of both kinds together hold the inputs
of the tree, and those of each kind are in the order of the tree. -/
inductive Restores : Nest → Tree → Prop where
  | node {b : Block} {statements values : List (String × Nest)} {next : Option Nest} {entry : Entry}
    {inputs : List (String × Tree)} {follow : Option Tree} (order : List (String × Nest))
    (hblock : entry.Describes b) (hslots : order.Perm (statements ++ values))
    (hstatements : statements.Sublist order) (hvalues : values.Sublist order)
    (hinputs : RestoresInputs order inputs) (hnext : RestoresNext next follow) :
    Restores (.node b statements values next) (.node entry inputs follow)

inductive RestoresInputs : List (String × Nest) → List (String × Tree) → Prop where
  | nil : RestoresInputs [] []
  | cons {slot : String} {nest : Nest} {tree : Tree} {r : List (String × Nest)}
    {inputs : List (String × Tree)} (h : Restores nest tree) (hr : RestoresInputs r inputs) :
    RestoresInputs ((slot, nest) :: r) ((slot, tree) :: inputs)

inductive RestoresNext : Option Nest → Option Tree → Prop where
  | none : RestoresNext none none
  | some {nest : Nest} {tree : Tree} (h : Restores nest tree) :
    RestoresNext (some nest) (some tree)

end

/-- Whatever workspace holds the blocks, reading it at least `size` blocks deep gives the nest. -/
def Kept (blocks : List Block) (size : Nat) (nest : Nest) : Prop :=
  ∀ w : Workspace, (∀ b ∈ blocks, w.get? b.id = some b) → ∀ n, size ≤ n →
    w.nest? n nest.id = some nest

theorem Kept.mono {xs ys : List Block} {m n : Nat} {nest : Nest} (h : Kept xs m nest)
    (hs : ∀ b ∈ xs, b ∈ ys) (hn : m ≤ n) : Kept ys n nest := by
  intro w hw k hk
  apply h w
  · intro b hb
    exact hw b (hs b hb)
  · omega

structure Restored (blocks : List Block) (tree : Tree) (nest : Nest) : Prop where
  head : ∃ rest, blocks = nest.block :: rest
  kept : Kept blocks tree.entries.length nest
  restores : Restores nest tree
  described : List.Forall₂ Entry.Describes tree.entries blocks

structure RestoredInputs (b block : Block) (inner : List Block) (inputs : List (String × Tree))
    (order statements values : List (String × Nest)) : Prop where
  statementEntries : block.statements.entries = b.statements.entries ++ slotIds statements
  valueEntries : block.values.entries = b.values.entries ++ slotIds values
  perm : order.Perm (statements ++ values)
  statementOrder : statements.Sublist order
  valueOrder : values.Sublist order
  kept : ∀ e ∈ order, Kept inner (inputsEntries inputs).length e.2
  restores : RestoresInputs order inputs
  described : List.Forall₂ Entry.Describes (inputsEntries inputs) inner

theorem shows_of_fieldValue? {v : Json.Value} {x : FieldValue} (h : fieldValue? v = some x) :
    Shows v x := by
  cases v with
  | whole n =>
    cases h
    exact .whole n
  | real y =>
    cases h
    exact .real y
  | text s =>
    cases h
    exact .text s
  | flag b =>
    cases h
    cases b with
    | true => exact .yes
    | false => exact .no
  | null => cases h
  | list items => cases h
  | object members => cases h

/-- If no field is refused, then each is on the block. -/
theorem shows_supportedFields {id typeId : String} {fields : List (String × Json.Value)}
    (h : fieldProblems id typeId fields = []) :
    List.Forall₂ (fun f g => f.1 = g.1 ∧ Shows f.2 g.2) fields (supportedFields fields) := by
  induction fields with
  | nil => exact .nil
  | cons f r ih =>
    cases hv : fieldValue? f.2 with
    | none => simp [fieldProblems, hv] at h
    | some x =>
      have hr : fieldProblems id typeId r = [] := by simpa [fieldProblems, hv] using h
      have hcons : supportedFields (f :: r) = (f.1, x) :: supportedFields r := by
        simp [supportedFields, hv]
      rw [hcons]
      exact .cons ⟨rfl, shows_of_fieldValue? hv⟩ (ih hr)

theorem nodup_supportedFields {fields : List (String × Json.Value)}
    (h : (fields.map Prod.fst).Nodup) : ((supportedFields fields).map Prod.fst).Nodup := by
  have hs : ((supportedFields fields).map Prod.fst).Sublist (fields.map Prod.fst) := by
    clear h
    induction fields with
    | nil => exact .slnil
    | cons f r ih =>
      cases hv : fieldValue? f.2 with
      | none => simpa [supportedFields, hv] using ih.cons f.1
      | some x => simpa [supportedFields, hv] using ih
  exact h.sublist hs

theorem describes_bare {e : Entry} {n n' : Nat} {id : String} (hl : e.label n = (id, n'))
    (hn : (e.fields.map Prod.fst).Nodup) (hf : fieldProblems id e.typeId e.fields = []) :
    Entry.Describes { e with id := some (e.label n).1 } (e.bare id) := by
  have hfields : (e.bare id).fields.entries = supportedFields e.fields :=
    Table.entries_ofList (nodup_supportedFields hn)
  refine ⟨by rw [hl]; rfl, rfl, rfl, rfl, rfl, ?_⟩
  rw [hfields]
  exact shows_supportedFields hf

theorem Entry.Describes.of_same {e : Entry} {b block : Block} (h : e.Describes b)
    (hs : block = { b with
      statements := block.statements, values := block.values, next := block.next }) :
    e.Describes block := by
  rw [hs]
  exact ⟨h.id, h.typeId, h.position, h.enabled, h.mutation, h.fields⟩

theorem Entry.Describes.plugged {e : Entry} {b : Block} (h : e.Describes b) (n : String) (s : Socket) :
    e.Describes (b.plug n s) := by
  apply h.of_same
  cases s <;> rfl

namespace RestoredInputs

variable {b block nested : Block} {inner others : List Block} {inputs : List (String × Tree)}
  {order statements values : List (String × Nest)} {slot : String} {tree : Tree} {nest : Nest}

theorem kept_cons (hkept : ∀ e ∈ order, Kept others (inputsEntries inputs).length e.2)
    (hn : Restored inner tree nest) :
    ∀ e ∈ (slot, nest) :: order,
      Kept (inner ++ others) (inputsEntries ((slot, tree) :: inputs)).length e.2 := by
  have hlength : (inputsEntries ((slot, tree) :: inputs)).length =
      tree.entries.length + (inputsEntries inputs).length := by
    simp [inputsEntries]
  rw [List.forall_mem_cons]
  constructor
  · apply hn.kept.mono
    · exact fun x hx => List.mem_append_left _ hx
    · omega
  · intro e he
    apply (hkept e he).mono
    · exact fun x hx => List.mem_append_right _ hx
    · omega

theorem statement (h : RestoredInputs (b.plug nest.id (.statement slot)) block others inputs order
      statements values) (hfree : b.linked? (.statement slot) = none)
    (hn : Restored inner tree nest) :
    RestoredInputs b block (inner ++ others) ((slot, tree) :: inputs) ((slot, nest) :: order)
      ((slot, nest) :: statements) values := by
  refine ⟨?_, h.valueEntries, ?_, ?_, ?_, kept_cons h.kept hn, .cons hn.restores h.restores, ?_⟩
  · have hentries := Table.entries_insert_of_none nest.id hfree
    rw [h.statementEntries]
    simp only [Block.plug, hentries, slotIds, List.map_cons, List.append_assoc,
      List.singleton_append]
  · exact h.perm.cons (slot, nest)
  · exact h.statementOrder.cons_cons (slot, nest)
  · exact h.valueOrder.cons (slot, nest)
  · exact List.rel_append hn.described h.described

theorem value (h : RestoredInputs (b.plug nest.id (.value slot)) block others inputs order
      statements values) (hfree : b.linked? (.value slot) = none) (hn : Restored inner tree nest) :
    RestoredInputs b block (inner ++ others) ((slot, tree) :: inputs) ((slot, nest) :: order)
      statements ((slot, nest) :: values) := by
  refine ⟨h.statementEntries, ?_, ?_, ?_, ?_, kept_cons h.kept hn, .cons hn.restores h.restores, ?_⟩
  · have hentries := Table.entries_insert_of_none nest.id hfree
    rw [h.valueEntries]
    simp only [Block.plug, hentries, slotIds, List.map_cons, List.append_assoc,
      List.singleton_append]
  · exact (h.perm.cons (slot, nest)).trans List.perm_middle.symm
  · exact h.statementOrder.cons (slot, nest)
  · exact h.valueOrder.cons_cons (slot, nest)
  · exact List.rel_append hn.described h.described

end RestoredInputs

/-- The nest of a block whose slots and successor are kept. -/
theorem kept_node {block : Block} {below : List Block} {size : Nat}
    {statements values : List (String × Nest)} {next : Option Nest}
    (hs : block.statements.entries = slotIds statements)
    (hv : block.values.entries = slotIds values) (hn : block.next = next.map Nest.id)
    (hslots : ∀ e ∈ statements ++ values, Kept below size e.2)
    (hnext : ∀ t ∈ next, Kept below size t) :
    Kept (block :: below) (size + 1) (.node block statements values next) := by
  intro w hw n hle
  obtain ⟨m, rfl⟩ : ∃ m, n = m + 1 := ⟨n - 1, by omega⟩
  have hsize : size ≤ m := by omega
  rw [List.forall_mem_cons] at hw
  have hstatements : nestSlots (w.nest? m) (slotIds statements) = some statements := by
    apply nestSlots_slotIds
    intro e he
    exact hslots e (List.mem_append_left _ he) w hw.2 m hsize
  have hvalues : nestSlots (w.nest? m) (slotIds values) = some values := by
    apply nestSlots_slotIds
    intro e he
    exact hslots e (List.mem_append_right _ he) w hw.2 m hsize
  have hget : w.get? (Nest.id (.node block statements values next)) = some block := hw.1
  cases next with
  | none => simp [Workspace.nest?, hget, hs, hv, hn, hstatements, hvalues]
  | some t =>
    have ht := hnext t rfl w hw.2 m hsize
    simp [Workspace.nest?, hget, hs, hv, hn, hstatements, hvalues, ht]

namespace RestoredInputs

variable {block : Block} {inner following : List Block} {entry : Entry} {id : String}
  {inputs : List (String × Tree)} {order statements values : List (String × Nest)} {tree : Tree}
  {follow : Nest}

theorem kept_slots {b : Block} (h : RestoredInputs b block inner inputs order statements values) :
    ∀ e ∈ statements ++ values, Kept inner (inputsEntries inputs).length e.2 := by
  intro e he
  exact h.kept e (h.perm.mem_iff.mpr he)

theorem last {n : Nat} (h : RestoredInputs (entry.bare id) block inner inputs order statements values)
    (hd : Entry.Describes { entry with id := some (entry.label n).1 } block)
    (hn : block.next = none) :
    Restored (block :: inner) (.node { entry with id := some (entry.label n).1 } inputs none)
      (.node block statements values none) := by
  refine ⟨⟨inner, rfl⟩, ?_, ?_, ?_⟩
  · simp only [Tree.entries, List.length_cons, List.append_nil]
    exact kept_node h.statementEntries h.valueEntries hn h.kept_slots (by simp)
  · exact .node order hd h.perm h.statementOrder h.valueOrder h.restores .none
  · simp only [Tree.entries, List.append_nil]
    exact .cons hd h.described

theorem followed {n : Nat}
    (h : RestoredInputs (entry.bare id) block inner inputs order statements values)
    (hd : Entry.Describes { entry with id := some (entry.label n).1 } block)
    (hf : Restored following tree follow) :
    Restored (block.plug follow.id .next :: (inner ++ following))
      (.node { entry with id := some (entry.label n).1 } inputs (some tree))
      (.node (block.plug follow.id .next) statements values (some follow)) := by
  have hplugged := hd.plugged follow.id .next
  refine ⟨⟨_, rfl⟩, ?_, ?_, ?_⟩
  · simp only [Tree.entries, List.length_cons, List.length_append]
    refine kept_node h.statementEntries h.valueEntries rfl ?_ ?_
    · intro e he
      apply (h.kept_slots e he).mono
      · exact fun b hb => List.mem_append_left _ hb
      · omega
    · intro t ht
      cases ht
      apply hf.kept.mono
      · exact fun b hb => List.mem_append_right _ hb
      · omega
  · exact .node order hplugged h.perm h.statementOrder h.valueOrder h.restores (.some hf.restores)
  · simp only [Tree.entries]
    exact .cons hplugged (List.rel_append h.described hf.described)

end RestoredInputs

mutual

/-- A tree that was placed without a problem can be read back, and its blocks are in the order of its
entries. -/
theorem placeTree_nest (c : Catalogue) : ∀ (tree : Tree) {site : Site} {p p' : Progress}
    {blocks : List Block}, (placeTree c site tree).run p = (blocks, p') → p'.problems = [] →
      tree.Distinct → ∃ nest, Restored blocks (tree.label p.generated).1 nest ∧
        p'.generated = (tree.label p.generated).2
  | .node entry inputs next, site, p, p', blocks, h, hp', hd => by
    unfold Tree.Distinct at hd
    obtain ⟨hfields, hnodup, hinputs, hnext⟩ := hd
    obtain ⟨id, block, inner, q, q', hadm, hclean, hplaced, hq', hlast, hgo⟩ := placeTree_steps h hp'
    have hunlinked := linked?_bare entry id
    have hinit : ∀ e ∈ inputs, Free (entry.bare id) e.1 := fun e _ => ⟨hunlinked _, hunlinked _⟩
    obtain ⟨hnone, heads, -, hfill⟩ := placeInputs_ok c inputs rfl hplaced hq' hnodup hinputs hinit
    obtain ⟨order, statements, values, hres, hgen⟩ :=
      placeInputs_nest c inputs hplaced hq' hnodup hinputs hinit
    have hlabel : (entry.label p.generated).2 = q.generated := by rw [hadm.label]
    rw [← hlabel] at hres hgen
    have hblock := (describes_bare hadm.label hfields hclean).of_same hfill.same
    cases next with
    | none =>
      obtain ⟨rfl, rfl⟩ := hlast rfl
      exact ⟨_, hres.last hblock hnone, hgen⟩
    | some tree =>
      obtain ⟨-, following, hfollow, rfl⟩ := hgo tree rfl
      obtain ⟨follow, hfol, hgen'⟩ := placeTree_nest c tree hfollow hp' hnext
      rw [hgen] at hfol hgen'
      obtain ⟨rest, rfl⟩ := hfol.head
      exact ⟨_, hres.followed hblock hfol, hgen'⟩

theorem placeInputs_nest (c : Catalogue) : ∀ (inputs : List (String × Tree)) {shape : Option Shape}
    {b block : Block} {p p' : Progress} {inner : List Block},
    (placeInputs c shape b inputs).run p = ((block, inner), p') → p'.problems = [] →
      (inputs.map Prod.fst).Nodup → DistinctInputs inputs → (∀ e ∈ inputs, Free b e.1) →
        ∃ order statements values, RestoredInputs b block inner (labelInputs p.generated inputs).1
          order statements values ∧ p'.generated = (labelInputs p.generated inputs).2
  | [], shape, b, block, p, p', inner, h, _, _, _, _ => by
    cases h
    exact ⟨[], [], [], ⟨by simp [slotIds], by simp [slotIds], .nil, .slnil, .slnil, by simp, .nil, .nil⟩,
      rfl⟩
  | (slot, tree) :: r, shape, b, block, p, p', inner, h, hp', hn, hd, hf => by
    rw [List.map_cons, List.nodup_cons] at hn
    rw [List.forall_mem_cons] at hf
    obtain ⟨s, placed, q, others, hs, hplaced, hq, hrest, rfl⟩ := placeInputs_cases h hp'
    obtain ⟨hcases, -⟩ := socket?_cases hs
    have hother := Free.plugFirst hcases hn.1 hf.2 placed
    obtain ⟨nest, hnest, hgen⟩ := placeTree_nest c tree hplaced hq hd.1
    obtain ⟨order, statements, values, hres, hgen'⟩ :=
      placeInputs_nest c r hrest hp' hn.2 hd.2 hother
    rw [hgen] at hres hgen'
    obtain ⟨rest, rfl⟩ := hnest.head
    rcases hcases with rfl | rfl
    · exact ⟨_, _, _, hres.value hf.1.1 hnest, hgen'⟩
    · exact ⟨_, _, _, hres.statement hf.1.2 hnest, hgen'⟩

end

structure RestoredForest (blocks : List Block) (forest : List Tree) (nests : List Nest) : Prop where
  heads : (nests.map Nest.id).Sublist (blocks.map Block.id)
  kept : ∀ t ∈ nests, Kept blocks (forest.flatMap Tree.entries).length t
  restores : List.Forall₂ Restores nests forest
  described : List.Forall₂ Entry.Describes (forest.flatMap Tree.entries) blocks

theorem RestoredForest.cons {blocks others : List Block} {tree : Tree} {forest : List Tree}
    {nest : Nest} {nests : List Nest} (h : RestoredForest others forest nests)
    (hn : Restored blocks tree nest) :
    RestoredForest (blocks ++ others) (tree :: forest) (nest :: nests) := by
  have hlength : ((tree :: forest).flatMap Tree.entries).length =
      tree.entries.length + (forest.flatMap Tree.entries).length := by
    rw [List.flatMap_cons, List.length_append]
  refine ⟨?_, ?_, .cons hn.restores h.restores, List.rel_append hn.described h.described⟩
  · obtain ⟨rest, rfl⟩ := hn.head
    have hrest : (nests.map Nest.id).Sublist ((rest ++ others).map Block.id) := by
      rw [List.map_append]
      exact h.heads.trans (List.sublist_append_right _ _)
    exact hrest.cons_cons nest.id
  · rw [List.forall_mem_cons]
    constructor
    · apply hn.kept.mono
      · exact fun b hb => List.mem_append_left _ hb
      · omega
    · intro t ht
      apply (h.kept t ht).mono
      · exact fun b hb => List.mem_append_right _ hb
      · omega

theorem placeForest_nest (c : Catalogue) {forest : List Tree} {p p' : Progress}
    {blocks : List Block} (h : (placeForest c forest).run p = (blocks, p')) (hp' : p'.problems = [])
    (hd : ∀ tree ∈ forest, tree.Distinct) :
    ∃ nests, RestoredForest blocks (labelForest p.generated forest).1 nests ∧
      Placed c p p' blocks (nests.map Nest.id) := by
  induction forest generalizing p blocks with
  | nil =>
    cases h
    exact ⟨[], ⟨.slnil, by simp, .nil, .nil⟩, .nil rfl⟩
  | cons tree forest ih =>
    rw [List.forall_mem_cons] at hd
    obtain ⟨placed, p₁, hplaced, h⟩ := exists_run_bind h
    obtain ⟨others, p₂, hothers, h⟩ := exists_run_bind h
    cases h
    have hp₁ := (placeForest_ok c hothers hp' hd.2).1
    obtain ⟨nests, hforest, hpl⟩ := ih hothers hd.2
    obtain ⟨nest, hnest, hgen⟩ := placeTree_nest c tree hplaced hp₁ hd.1
    obtain ⟨head, rest, hcons, -, hplt⟩ := placeTree_ok c tree hplaced hp₁ hd.1
    obtain ⟨rest', hcons'⟩ := hnest.head
    have hhead : head.id = nest.id := by
      rw [hcons] at hcons'
      cases hcons'
      rfl
    rw [hgen] at hforest
    rw [hhead] at hplt
    exact ⟨nest :: nests, hforest.cons hnest, hplt.append hpl⟩

/-- Of ids that are heads or children, those that are no children are the heads, in order. -/
theorem filter_eq_heads {heads children ids : List String} (h : (heads ++ children).Perm ids)
    (hn : ids.Nodup) (hs : heads.Sublist ids) :
    ids.filter (fun i => decide (i ∉ children)) = heads := by
  have hdisjoint := (List.nodup_append.mp (h.nodup_iff.mpr hn)).2.2
  have hheads : heads.filter (fun i => decide (i ∉ children)) = heads := by
    rw [List.filter_eq_self]
    intro i hi
    rw [decide_eq_true_eq]
    exact fun hm => hdisjoint i hi i hm rfl
  have hchildren : children.filter (fun i => decide (i ∉ children)) = [] := by
    rw [List.filter_eq_nil_iff]
    intro i hi
    simpa using hi
  have hperm := h.filter fun i => decide (i ∉ children)
  rw [List.filter_append, hheads, hchildren, List.append_nil] at hperm
  have hsub := hs.filter fun i => decide (i ∉ children)
  rw [hheads] at hsub
  exact (hsub.eq_of_length hperm.length_eq).symm

/-- The blocks that are not linked are the heads of the forest. -/
theorem unlinked_workspaceOf {c : Catalogue} {p p' : Progress} {blocks : List Block}
    {heads : List String} (h : Placed c p p' blocks heads)
    (hs : heads.Sublist (blocks.map Block.id)) :
    (workspaceOf blocks).unlinked.map Prod.fst = heads := by
  rw [← filter_eq_heads h.linked h.nodup hs]
  unfold Workspace.unlinked
  rw [linkedIds_workspaceOf h.nodup, entries_workspaceOf h.nodup, List.filter_map, List.filter_map,
    List.map_map]
  rfl

theorem loadNodes_restored {c : Catalogue} {nodes : List Node} {w : Workspace}
    (h : loadNodes c nodes = .ok w) :
    ∃ blocks nests p', w = workspaceOf blocks ∧ Placed c {} p' blocks (nests.map Nest.id) ∧
      RestoredForest blocks (numbered (nodes.map Node.tree)) nests := by
  obtain ⟨blocks, p', hw, hp', hrun⟩ := loadNodes_run h
  obtain ⟨nests, hforest, hpl⟩ := placeForest_nest c hrun hp' (distinct_trees nodes)
  exact ⟨blocks, nests, p', hw, hpl, hforest⟩

/-- Loading loses nothing and adds nothing: the workspace of an accepted document, read along its
links, is the forest of the document. -/
theorem nests_of_loaded (c : Catalogue) (nodes : List Node) (w : Workspace)
    (h : loadNodes c nodes = .ok w) :
    ∃ forest nests, List.Forall₂ Node.Gives nodes forest ∧ w.nests? = some nests ∧
      List.Forall₂ Restores nests (numbered forest) ∧
      w.blocks.keys.map some = ((numbered forest).flatMap Tree.entries).map Entry.id ∧
      w.size = (forest.flatMap Tree.entries).length := by
  obtain ⟨blocks, nests, p', rfl, hpl, hforest⟩ := loadNodes_restored h
  have hgives : List.Forall₂ Node.Gives nodes (nodes.map Node.tree) := by
    rw [List.forall₂_map_right_iff]
    exact List.forall₂_same.mpr fun node _ => node.gives_tree
  have hlength : ((numbered (nodes.map Node.tree)).flatMap Tree.entries).length =
      ((nodes.map Node.tree).flatMap Tree.entries).length := by
    have htypes := congrArg List.length (map_typeId_labelForest 0 (nodes.map Node.tree))
    rwa [List.length_map, List.length_map] at htypes
  have hsize : (workspaceOf blocks).size = blocks.length := by
    rw [Workspace.size, Table.size, entries_workspaceOf hpl.nodup, List.length_map]
  have hblocks := hforest.described.length_eq
  have hunlinked := unlinked_workspaceOf hpl hforest.heads
  refine ⟨nodes.map Node.tree, nests, hgives, ?_, hforest.restores, ?_, ?_⟩
  · rw [Workspace.nests?, hunlinked]
    apply mapM_nest_ids
    intro t ht
    apply hforest.kept t ht
    · intro b hb
      exact (get?_workspaceOf hpl.nodup).mpr ⟨hb, rfl⟩
    · omega
  · rw [keys_workspaceOf hpl.nodup, List.map_map, ← List.forall₂_eq_eq_eq, List.forall₂_map_left_iff,
      List.forall₂_map_right_iff]
    exact hforest.described.flip.imp fun b e hb => hb.id.symm
  · rw [hsize, ← hblocks, hlength]

/-- A branch with a block in a slot of each kind, one of them a shadow, and one after it, in a loop
beside a routine. -/
def sampleBranch : List Node :=
  let delay : Node := .mk { typeId := "arduino_delay", fields := [("DELAY", .whole 5)] } [] none
  let yes : Node := .mk { typeId := "arduino_boolean", fields := [("BOOL", .flag true)] } [] none
  let branch : Node := .mk
    { typeId := "arduino_if_else", id := some "check", mutation := ⟨1, true⟩, enabled := false }
    [("DO0", .mk (some delay) (some yes)), ("IF0", .mk none (some yes)), ("IF1", .mk none none),
      ("ELSE", .mk (some delay) none)] (some (.mk (some delay) none))
  [.mk { typeId := "arduino_loop" } [("LOOP", .mk (some branch) none)] none,
    .mk { typeId := "arduino_setup" } [] none]

theorem nests_of_loaded_sampleBranch :
    ∃ w, loadNodes Arduino.catalogue sampleBranch = .ok w ∧
      w.blocks.keys = ["b1", "check", "b2", "b3", "b4", "b5", "b6"] ∧
      ∃ forest nests, List.Forall₂ Node.Gives sampleBranch forest ∧ w.nests? = some nests ∧
        List.Forall₂ Restores nests (numbered forest) ∧
        w.blocks.keys.map some = ((numbered forest).flatMap Tree.entries).map Entry.id ∧
        w.size = (forest.flatMap Tree.entries).length := by
  have hrun : (loadNodes Arduino.catalogue sampleBranch).toOption.map (fun w => w.blocks.keys) =
      some ["b1", "check", "b2", "b3", "b4", "b5", "b6"] := by
    decide +kernel
  cases hload : loadNodes Arduino.catalogue sampleBranch with
  | error problems => simp [hload, Except.toOption] at hrun
  | ok w =>
    simp only [hload, Except.toOption, Option.map_some, Option.some.injEq] at hrun
    exact ⟨w, rfl, hrun, nests_of_loaded Arduino.catalogue sampleBranch w hload⟩

end Document

end BlockSketch
