import BlockSketch.Proofs.Document.Placing

namespace BlockSketch.Document

/-- What is plugged in: the block, or the shadow where there is no block. -/
def Connection.plugged? : Connection → Option Node
  | .mk block shadow => block.or shadow

mutual

/-- A node of a document gives a tree. -/
inductive Node.Gives : Node → Tree → Prop where
  | mk {entry : Entry} {connections : List (String × Connection)} {follow : Option Connection}
    {inputs : List (String × Tree)} {next : Option Tree}
    (hinputs : GivesInputs (lastWins connections) inputs) (hnext : GivesNext follow next) :
    Node.Gives (.mk entry connections follow)
      (.node { entry with fields := lastWins entry.fields } inputs next)

/-- An empty connection gives nothing. -/
inductive GivesInputs : List (String × Connection) → List (String × Tree) → Prop where
  | nil : GivesInputs [] []
  | empty {slot : String} {connection : Connection} {r : List (String × Connection)}
    {inputs : List (String × Tree)} (h : connection.plugged? = none) (hr : GivesInputs r inputs) :
    GivesInputs ((slot, connection) :: r) inputs
  | plugged {slot : String} {connection : Connection} {node : Node} {tree : Tree}
    {r : List (String × Connection)} {inputs : List (String × Tree)}
    (h : connection.plugged? = some node) (ht : Node.Gives node tree) (hr : GivesInputs r inputs) :
    GivesInputs ((slot, connection) :: r) ((slot, tree) :: inputs)

inductive GivesNext : Option Connection → Option Tree → Prop where
  | none : GivesNext none none
  | empty {connection : Connection} (h : connection.plugged? = none) :
    GivesNext (some connection) none
  | plugged {connection : Connection} {node : Node} {tree : Tree}
    (h : connection.plugged? = some node) (ht : Node.Gives node tree) :
    GivesNext (some connection) (some tree)

end

theorem Connection.tree?_eq (connection : Connection) :
    connection.tree? = connection.plugged?.map Node.tree := by
  obtain ⟨block, shadow⟩ := connection
  cases block with
  | some node => rfl
  | none => cases shadow <;> rfl

theorem inputTrees_eq (inputs : List (String × Connection)) :
    inputTrees inputs = inputs.map fun e => (e.1, e.2.tree?) := by
  induction inputs with
  | nil => rfl
  | cons e r ih => rw [inputTrees, ih, List.map_cons]

theorem lastWins_inputTrees (connections : List (String × Connection)) :
    lastWins (inputTrees connections) = (lastWins connections).map fun e => (e.1, e.2.tree?) := by
  rw [inputTrees_eq]
  exact Table.entries_ofList_map Connection.tree? connections

theorem givesInputs_present {connections : List (String × Connection)}
    (h : ∀ e ∈ connections, ∀ node, e.2.plugged? = some node → node.Gives node.tree) :
    GivesInputs connections (present (connections.map fun e => (e.1, e.2.tree?))) := by
  induction connections with
  | nil => exact .nil
  | cons e r ih =>
    obtain ⟨slot, connection⟩ := e
    rw [List.forall_mem_cons] at h
    have hr := ih h.2
    cases hp : connection.plugged? with
    | none =>
      have ht : connection.tree? = none := by rw [connection.tree?_eq, hp]; rfl
      have hg : GivesInputs ((slot, connection) :: r) _ := .empty hp hr
      simpa [present, ht] using hg
    | some node =>
      have ht : connection.tree? = some node.tree := by rw [connection.tree?_eq, hp]; rfl
      have hg : GivesInputs ((slot, connection) :: r) ((slot, node.tree) :: _) :=
        .plugged hp (h.1 node hp) hr
      simpa [present, ht] using hg

mutual

theorem Node.gives_tree : ∀ node : Node, node.Gives node.tree
  | .mk entry inputs next => by
    have hall := gives_of_mem_inputs inputs
    unfold Node.tree
    refine .mk ?_ ?_
    · rw [lastWins_inputTrees]
      apply givesInputs_present
      intro e he
      exact hall e (Table.mem_of_mem_ofList he)
    · cases next with
      | none => exact .none
      | some connection =>
        have hgives := connection.gives_tree
        have ht := connection.tree?_eq
        cases hp : connection.plugged? with
        | none =>
          rw [hp] at ht
          simpa [ht] using GivesNext.empty hp
        | some node =>
          rw [hp] at ht
          simpa [ht] using GivesNext.plugged hp (hgives node hp)

theorem Connection.gives_tree : ∀ (connection : Connection) (node : Node),
    connection.plugged? = some node → node.Gives node.tree
  | .mk (some block) _, node, h => by
    cases h
    exact block.gives_tree
  | .mk none (some shadow), node, h => by
    cases h
    exact shadow.gives_tree
  | .mk none none, node, h => by cases h

theorem gives_of_mem_inputs : ∀ (inputs : List (String × Connection)), ∀ e ∈ inputs, ∀ node,
    e.2.plugged? = some node → node.Gives node.tree
  | [], e, he, _, _ => by simp at he
  | (slot, connection) :: r, e, he, node, hp => by
    rcases List.mem_cons.mp he with rfl | he
    · exact connection.gives_tree node hp
    · exact gives_of_mem_inputs r e he node hp

end

mutual

theorem Node.Gives.eq_tree : ∀ {node : Node} {t : Tree}, node.Gives t → t = node.tree
  | .mk entry connections follow, _, .mk hinputs hnext => by
    have hi := hinputs.eq_present
    have hn := hnext.eq_tree?
    cases follow <;> rw [hi, hn, Node.tree, lastWins_inputTrees] <;> rfl

theorem GivesInputs.eq_present : ∀ {connections : List (String × Connection)}
    {inputs : List (String × Tree)}, GivesInputs connections inputs →
      inputs = present (connections.map fun e => (e.1, e.2.tree?))
  | _, _, .nil => rfl
  | _, _, .empty h hr => by
    rw [hr.eq_present]
    simp [present, Connection.tree?_eq, h]
  | _, _, .plugged h ht hr => by
    rw [hr.eq_present, ht.eq_tree]
    simp [present, Connection.tree?_eq, h]

theorem GivesNext.eq_tree? : ∀ {follow : Option Connection} {next : Option Tree},
    GivesNext follow next → next = follow.bind Connection.tree?
  | _, _, .none => rfl
  | _, _, .empty h => by simp [Connection.tree?_eq, h]
  | _, _, .plugged h ht => by
    rw [ht.eq_tree]
    simp [Connection.tree?_eq, h]

end

theorem forall₂_gives_iff {nodes : List Node} {forest : List Tree} :
    List.Forall₂ Node.Gives nodes forest ↔ forest = nodes.map Node.tree := by
  constructor
  · intro h
    induction h with
    | nil => rfl
    | cons ht _ ih => rw [List.map_cons, ← ih, ht.eq_tree]
  · rintro rfl
    rw [List.forall₂_map_right_iff]
    exact List.forall₂_same.mpr fun node _ => node.gives_tree

mutual

/-- The entries of a tree: that of its block, those of the inputs in order, and those of what
follows. -/
def Tree.entries : Tree → List Entry
  | .node entry inputs next =>
    entry :: (inputsEntries inputs ++ (match next with
      | some t => t.entries
      | none => []))

def inputsEntries : List (String × Tree) → List Entry
  | [] => []
  | (_, t) :: r => t.entries ++ inputsEntries r

end

mutual

/-- The tree with an id for every block, `n` being the number of ids that were generated before, and
that number after it. -/
def Tree.label (n : Nat) : Tree → Tree × Nat
  | .node entry inputs next =>
    let own := entry.label n
    let below := labelInputs own.2 inputs
    match next with
    | none => (.node { entry with id := some own.1 } below.1 none, below.2)
    | some t =>
      let following := t.label below.2
      (.node { entry with id := some own.1 } below.1 (some following.1), following.2)

def labelInputs (n : Nat) : List (String × Tree) → List (String × Tree) × Nat
  | [] => ([], n)
  | (slot, t) :: r =>
    let first := t.label n
    let others := labelInputs first.2 r
    ((slot, first.1) :: others.1, others.2)

end

def labelForest (n : Nat) : List Tree → List Tree × Nat
  | [] => ([], n)
  | t :: r =>
    let first := t.label n
    let others := labelForest first.2 r
    (first.1 :: others.1, others.2)

/-- The forest with an id for every block. -/
def numbered (forest : List Tree) : List Tree := (labelForest 0 forest).1

mutual

/-- Ids change nothing else: the types stay, in order. -/
theorem Tree.map_typeId_label (n : Nat) :
    ∀ t : Tree, (t.label n).1.entries.map Entry.typeId = t.entries.map Entry.typeId
  | .node entry inputs next => by
    have hinputs := map_typeId_labelInputs (entry.label n).2 inputs
    cases next with
    | none => simp [Tree.label, Tree.entries, hinputs]
    | some t =>
      have hnext := t.map_typeId_label (labelInputs (entry.label n).2 inputs).2
      simp [Tree.label, Tree.entries, hinputs, hnext]

theorem map_typeId_labelInputs (n : Nat) : ∀ inputs : List (String × Tree),
    (inputsEntries (labelInputs n inputs).1).map Entry.typeId =
      (inputsEntries inputs).map Entry.typeId
  | [] => rfl
  | (slot, t) :: r => by
    have hfirst := t.map_typeId_label n
    have hothers := map_typeId_labelInputs (t.label n).2 r
    simp [labelInputs, inputsEntries, hfirst, hothers]

end

theorem map_typeId_labelForest (n : Nat) (forest : List Tree) :
    ((labelForest n forest).1.flatMap Tree.entries).map Entry.typeId =
      (forest.flatMap Tree.entries).map Entry.typeId := by
  induction forest generalizing n with
  | nil => rfl
  | cons t r ih =>
    have hfirst := t.map_typeId_label n
    have hothers := ih (t.label n).2
    simp only [labelForest, List.flatMap_cons, List.map_append, hfirst, hothers]

end BlockSketch.Document
