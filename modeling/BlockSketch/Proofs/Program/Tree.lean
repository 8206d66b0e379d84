import BlockSketch.Proofs.Program.Template

namespace BlockSketch.Program

/-- Where a walk meets a block: first in a root's own chain, elsewhere in a chain, as an operand. -/
inductive Place where
  | top
  | chain
  | operand
  deriving DecidableEq, Repr

def placeAt : Socket → Place
  | .value _ => .operand
  | .statement _ => .chain
  | .next => .chain

namespace Place

def output : Place → Output
  | .operand => .value
  | _ => .statement

/-- The block that follows; an operand is not followed by any. -/
def next? (place : Place) (b : Block) : Option String :=
  if place = .operand then none else b.next

end Place

/-- The sockets that are read of a block: those of its rule, if it is enabled. -/
def Context.reads (c : Context) (b : Block) : List Socket :=
  if b.enabled then
    match c.rules.get? b.typeId with
    | some rule => rule.sockets b.mutation
    | none => []
  else []

/-- The place of a root: an enabled block whose type is that of operands is one, and any other block
starts a chain. -/
def Context.rootPlace (c : Context) (id : String) : Place :=
  match c.workspace.get? id with
  | some b =>
    match c.catalogue.shape? b.typeId with
    | some shape => if b.enabled && shape.isValue then .operand else .top
    | none => .top
  | none => .top

mutual

/-- What stands at one place: nothing, or a block with what is read of its sockets and what follows. -/
inductive Tree where
  | leaf
  | node (id : String) (block : Block) (inputs : Inputs) (next : Tree)

/-- What stands at the sockets of a block, one after another. -/
inductive Inputs where
  | nil
  | cons (socket : Socket) (tree : Tree) (others : Inputs)

end

mutual

/-- The tree is what the graph holds at a place, `at?` being the block that is linked there. -/
def Tree.Unfolds (c : Context) (place : Place) (at? : Option String) : Tree → Prop
  | .leaf => at? = none
  | .node id b inputs next =>
    at? = some id ∧ c.workspace.get? id = some b ∧ inputs.Unfold c b (c.reads b) ∧
      next.Unfolds c .chain (place.next? b)

/-- The inputs are what the graph holds at these sockets of a block. -/
def Inputs.Unfold (c : Context) (b : Block) (sockets : List Socket) : Inputs → Prop
  | .nil => sockets = []
  | .cons s t others =>
    ∃ r, sockets = s :: r ∧ t.Unfolds c (placeAt s) (b.linked? s) ∧ others.Unfold c b r

end

/-- The inputs at some sockets, given the trees there. -/
def Inputs.ofSockets? (tree? : Socket → Option Tree) : List Socket → Option Inputs
  | [] => some .nil
  | s :: r => do return .cons s (← tree? s) (← ofSockets? tree? r)

/-- The tree that the graph holds at a place, if it is at most `n` blocks deep. -/
def Context.tree? (c : Context) : Nat → Place → Option String → Option Tree
  | _, _, none => some .leaf
  | 0, _, some _ => none
  | n + 1, place, some id => do
    let b ← c.workspace.get? id
    let inputs ← Inputs.ofSockets? (fun s => c.tree? n (placeAt s) (b.linked? s)) (c.reads b)
    let next ← c.tree? n .chain (place.next? b)
    return .node id b inputs next

theorem Inputs.unfold_of_ofSockets? {c : Context} {b : Block} {tree? : Socket → Option Tree}
    (h : ∀ s t, tree? s = some t → t.Unfolds c (placeAt s) (b.linked? s)) {sockets : List Socket}
    {inputs : Inputs} (hi : ofSockets? tree? sockets = some inputs) : inputs.Unfold c b sockets := by
  induction sockets generalizing inputs with
  | nil =>
    simp only [ofSockets?, Option.some.injEq] at hi
    subst hi
    rfl
  | cons s r ih =>
    simp only [ofSockets?, Option.bind_eq_bind, Option.bind_eq_some_iff, Option.pure_def,
      Option.some.injEq] at hi
    obtain ⟨t, ht, others, ho, rfl⟩ := hi
    exact ⟨r, rfl, h s t ht, ih ho⟩

theorem Context.unfolds_of_tree? {c : Context} {n : Nat} {place : Place} {at? : Option String}
    {t : Tree} (h : c.tree? n place at? = some t) : t.Unfolds c place at? := by
  induction n generalizing place at? t with
  | zero =>
    cases at? with
    | none =>
      simp only [tree?, Option.some.injEq] at h
      subst h
      rfl
    | some id => simp [tree?] at h
  | succ n ih =>
    cases at? with
    | none =>
      simp only [tree?, Option.some.injEq] at h
      subst h
      rfl
    | some id =>
      simp only [tree?, Option.bind_eq_bind, Option.bind_eq_some_iff, Option.pure_def,
        Option.some.injEq] at h
      obtain ⟨b, hb, inputs, hi, next, hn, rfl⟩ := h
      exact ⟨rfl, hb, Inputs.unfold_of_ofSockets? (fun _ _ hs => ih hs) hi, ih hn⟩

/-- Each tree is what the graph holds at its root. -/
def UnfoldRoots (c : Context) (roots : List String) (trees : List Tree) : Prop :=
  List.Forall₂ (fun id tree => tree.Unfolds c (c.rootPlace id) (some id)) roots trees

mutual

theorem Tree.Unfolds.unique {c : Context} {place : Place} {at? : Option String} :
    ∀ {t t' : Tree}, t.Unfolds c place at? → t'.Unfolds c place at? → t = t'
  | .leaf, .leaf, _, _ => rfl
  | .leaf, .node .., h, h' => by simp_all [Tree.Unfolds]
  | .node .., .leaf, h, h' => by simp_all [Tree.Unfolds]
  | .node _ _ inputs next, .node _ _ inputs' next', h, h' => by
    obtain ⟨rfl, hb, hi, hn⟩ := h
    obtain ⟨he, hb', hi', hn'⟩ := h'
    cases he
    rw [hb] at hb'
    cases hb'
    rw [hi.unique hi', hn.unique hn']

theorem Inputs.Unfold.unique {c : Context} {b : Block} {sockets : List Socket} :
    ∀ {i i' : Inputs}, i.Unfold c b sockets → i'.Unfold c b sockets → i = i'
  | .nil, .nil, _, _ => rfl
  | .nil, .cons .., h, h' => by simp_all [Inputs.Unfold]
  | .cons .., .nil, h, h' => by simp_all [Inputs.Unfold]
  | .cons _ t others, .cons _ t' others', h, h' => by
    obtain ⟨r, rfl, ht, ho⟩ := h
    obtain ⟨r', he, ht', ho'⟩ := h'
    cases he
    rw [ht.unique ht', ho.unique ho']

end

theorem UnfoldRoots.unique {c : Context} {roots : List String} {trees trees' : List Tree}
    (h : UnfoldRoots c roots trees) (h' : UnfoldRoots c roots trees') : trees = trees' := by
  induction h generalizing trees' with
  | nil =>
    cases h'
    rfl
  | cons ht _ ih =>
    cases h' with
    | cons ht' hr' => rw [ht.unique ht', ih hr']

mutual

def Tree.ids : Tree → List String
  | .leaf => []
  | .node id _ inputs next => id :: (inputs.ids ++ next.ids)

def Inputs.ids : Inputs → List String
  | .nil => []
  | .cons _ t others => t.ids ++ others.ids

end

/-- What leads to a block: an entry of the list of roots, or a link of another block. -/
inductive Reference where
  | root (index : Nat)
  | link (block : String) (socket : Socket)
  deriving DecidableEq, Repr

/-- A block as it is met on a walk: through which reference, where, and under which id. -/
structure Visit where
  reference : Reference
  place : Place
  id : String
  block : Block

mutual

/-- The visits of a tree in the order of the walk, `r` being what leads to it. -/
def Tree.visits (r : Reference) (place : Place) : Tree → List Visit
  | .leaf => []
  | .node id b inputs next =>
    ⟨r, place, id, b⟩ :: (inputs.visits id ++ next.visits (.link id .next) .chain)

/-- The visits below the block `id`. -/
def Inputs.visits (id : String) : Inputs → List Visit
  | .nil => []
  | .cons s t others => t.visits (.link id s) (placeAt s) ++ others.visits id

end

/-- The visits of the trees of some roots, the first of them being the entry `i` of the list. -/
def forestVisits (c : Context) : Nat → List String → List Tree → List Visit
  | i, id :: roots, t :: trees =>
    t.visits (.root i) (c.rootPlace id) ++ forestVisits c (i + 1) roots trees
  | _, _, _ => []

mutual

theorem Tree.map_id_visits (r : Reference) (place : Place) :
    ∀ t : Tree, (t.visits r place).map Visit.id = t.ids
  | .leaf => rfl
  | .node id _ inputs next => by
    simp [Tree.visits, Tree.ids, Inputs.map_id_visits id inputs, Tree.map_id_visits _ _ next]

theorem Inputs.map_id_visits (id : String) :
    ∀ inputs : Inputs, (inputs.visits id).map Visit.id = inputs.ids
  | .nil => rfl
  | .cons s t others => by
    simp [Inputs.visits, Inputs.ids, Tree.map_id_visits _ _ t, Inputs.map_id_visits id others]

end

def ownHoisted (c : Context) (b : Block) : List (String × String) :=
  if b.enabled then
    match c.catalogue.shape? b.typeId, c.rules.get? b.typeId with
    | some shape, some rule => rule.hoisted (fieldOf shape b)
    | _, _ => []
  else []

mutual

/-- The declarations of a tree in the order of the walk, repeated ones included. -/
def Tree.hoisted (c : Context) : Tree → List (String × String)
  | .leaf => []
  | .node _ b inputs next => ownHoisted c b ++ inputs.hoisted c ++ next.hoisted c

def Inputs.hoisted (c : Context) : Inputs → List (String × String)
  | .nil => []
  | .cons _ t others => t.hoisted c ++ others.hoisted c

end

def indented (code : String) : String :=
  String.ofList ((Text.cutAfter '\n' code.toList).flatMap fun line => "  ".toList ++ line)

/-- The text at a socket: a chain is indented, an operand is put in parentheses where its order asks
for it, and an absent one is the literal for its slot. -/
def slotText (shape : Shape) (outer : Order) (chain : Socket → String)
    (operand : Socket → Option (String × Order)) : Socket → String
  | .value slot =>
    match operand (.value slot) with
    | some (code, inner) => outer.wrap code inner
    | none => (shape.defaultLiteral? slot).getD ""
  | .statement slot => indented (chain (.statement slot))
  | .next => ""

/-- What a block itself is written as, apart from what follows it. One that is not enabled is not
written at all. -/
def blockText (c : Context) (b : Block) (chain : Socket → String)
    (operand : Socket → Option (String × Order)) : Option Rendered :=
  if b.enabled then
    match c.catalogue.shape? b.typeId, c.rules.get? b.typeId with
    | some shape, some rule =>
      some (rule.render b.mutation (fieldOf shape b)
        (slotText shape (rule.outer (fieldOf shape b)) chain operand))
    | _, _ => none
  else none

/-- A block in a chain that is not written has the empty text. -/
def statementText : Option Rendered → String
  | some (.statement code) => code
  | _ => ""

/-- An operand that is written as nothing counts as absent. -/
def operandText? : Option Rendered → Option (String × Order)
  | some (.value code order) => if code = "" then none else some (code, order)
  | _ => none

mutual

/-- The text of a chain: the texts of its blocks one after another. -/
def Tree.chainText (c : Context) : Tree → String
  | .leaf => ""
  | .node _ b inputs next =>
    statementText (blockText c b (fun s => inputs.chainText c s) (fun s => inputs.operand c s)) ++
      next.chainText c

/-- The text and the order of an operand, if it has any text. -/
def Tree.operand (c : Context) : Tree → Option (String × Order)
  | .leaf => none
  | .node _ b inputs _ =>
    operandText? (blockText c b (fun s => inputs.chainText c s) (fun s => inputs.operand c s))

def Inputs.chainText (c : Context) : Inputs → Socket → String
  | .nil, _ => ""
  | .cons s t others, s' => if s' = s then t.chainText c else others.chainText c s'

def Inputs.operand (c : Context) : Inputs → Socket → Option (String × Order)
  | .nil, _ => none
  | .cons s t others, s' => if s' = s then t.operand c else others.operand c s'

end

/-- The text of a root: an operand as it is, and any other block as its chain. -/
def Tree.rootText (c : Context) (place : Place) (t : Tree) : String :=
  match place with
  | .operand => ((t.operand c).map Prod.fst).getD ""
  | _ => t.chainText c

/-- The program text of the trees of some roots. A declaration stands at the place of its first
occurrence and with the text of its last one. -/
def forestText (c : Context) (roots : List String) (trees : List Tree) : String :=
  let declarations := Table.ofList (trees.flatMap (Tree.hoisted c))
  let texts := List.zipWith (fun id tree => tree.rootText c (c.rootPlace id)) roots trees
  (if declarations.values = [] then ""
    else String.intercalate "\n" declarations.values ++ "\n\n") ++
    Text.tidy (String.intercalate "\n" (texts.filter (· ≠ "")))

end BlockSketch.Program
