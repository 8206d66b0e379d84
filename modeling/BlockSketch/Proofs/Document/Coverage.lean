import BlockSketch.Proofs.Document.Nesting
import BlockSketch.Proofs.Document.Safety
import BlockSketch.Proofs.Program.Slots
import BlockSketch.Proofs.Program.Soundness

namespace BlockSketch

namespace Workspace

/-- A block lies, at any depth, in an input of a block that is not enabled. -/
inductive Sheltered (w : Workspace) : String → Prop where
  | input {id n : String} {b : Block} {s : Socket} (hb : w.get? id = some b)
    (hd : b.enabled = false) (hs : s ≠ .next) (hn : b.linked? s = some n) : Sheltered w n
  | deeper {id n : String} {b : Block} {s : Socket} (h : Sheltered w id) (hb : w.get? id = some b)
    (hn : b.linked? s = some n) : Sheltered w n

theorem Sheltered.mem_linkedIds {w : Workspace} {id : String} (h : w.Sheltered id) :
    id ∈ w.linkedIds := by
  cases h with
  | input hb _ _ hn => exact Workspace.mem_linkedIds hb hn
  | deeper _ hb hn => exact Workspace.mem_linkedIds hb hn

end Workspace

namespace Program

open Document (IsForest offers)

section Sockets

variable {typeId : String} {shape : Shape} {rule : Rule} {m : Mutation} {s : Socket}

theorem sockets_of_ne_branch (h : rule ≠ .branch) (m : Mutation) :
    rule.sockets m = rule.sockets {} := by
  cases rule with
  | branch => exact absurd rfl h
  | _ => rfl

/-- A type whose number of slots is fixed. -/
theorem mem_sockets_of_fixed (hs : Arduino.catalogue.shape? typeId = some shape)
    (hr : Rules.builtin.get? typeId = some rule) (ha : shape.arity = none)
    (ho : offers shape m s = true) (hn : s ≠ .next) : s ∈ rule.sockets m := by
  have hall : ∀ e ∈ Arduino.types, e.2.arity = none → (Rules.builtin.get? e.1).all (fun rule =>
      decide (rule ≠ .branch) &&
        e.2.valueSlots.all (fun v => decide (Socket.value v.name ∈ rule.sockets {})) &&
        e.2.statementSlots.all (fun slot => decide (Socket.statement slot ∈ rule.sockets {}))) =
      true := by
    decide
  have hrule := hall _ (Arduino.mem_types hs) ha
  simp only [hr, Option.all_some, Bool.and_eq_true, decide_eq_true_eq, List.all_eq_true] at hrule
  obtain ⟨⟨hne, hvalues⟩, hstatements⟩ := hrule
  rw [sockets_of_ne_branch hne m]
  cases s with
  | next => exact absurd rfl hn
  | value slot =>
    simp only [offers, Shape.acceptsValue, ha, Bool.or_false, List.any_eq_true, beq_iff_eq] at ho
    obtain ⟨v, hv, rfl⟩ := ho
    exact hvalues v hv
  | statement slot =>
    have hslot : slot ∈ shape.statementSlots := by
      simpa [offers, Shape.acceptsStatement, ha] using ho
    exact hstatements slot hslot

/-- A type whose number of branches varies. -/
theorem mem_sockets_of_arity {arity : Arity} (hs : Arduino.catalogue.shape? typeId = some shape)
    (hr : Rules.builtin.get? typeId = some rule) (ha : shape.arity = some arity)
    (ho : offers shape m s = true) (hn : s ≠ .next) : s ∈ rule.sockets m := by
  have hall : ∀ e ∈ Arduino.types, e.2.arity ≠ none → Rules.builtin.get? e.1 = some .branch ∧
      e.2.arity = some ⟨"IF", "DO", "ELSE", "false"⟩ ∧
      e.2.valueSlots.map ValueSlot.name = [indexedSlot "IF" 0] ∧
      e.2.statementSlots = [indexedSlot "DO" 0] := by
    decide
  obtain ⟨hbranch, harity, hvalues, hstatements⟩ := hall _ (Arduino.mem_types hs) (by simp [ha])
  simp only at hbranch harity hvalues hstatements
  rw [hr, Option.some.injEq] at hbranch
  subst hbranch
  cases s with
  | next => exact absurd rfl hn
  | value slot =>
    rw [value_mem_branch_sockets_iff]
    rcases (shape.acceptsValue_iff m slot).mp ho with ⟨v, hv, rfl⟩ | ⟨a, ha, hi⟩
    · have hname : v.name ∈ shape.valueSlots.map ValueSlot.name := List.mem_map.mpr ⟨v, hv, rfl⟩
      rw [hvalues, List.mem_singleton] at hname
      exact ⟨0, Nat.zero_le _, hname⟩
    · rw [harity, Option.some.injEq] at ha
      subst ha
      exact hi
  | statement slot =>
    rw [statement_mem_branch_sockets_iff]
    rcases (shape.acceptsStatement_iff m slot).mp ho with hslot | ⟨a, ha, hi⟩
    · rw [hstatements, List.mem_singleton] at hslot
      exact .inr ⟨0, Nat.zero_le _, hslot⟩
    · rw [harity, Option.some.injEq] at ha
      subst ha
      exact hi

/-- What a built-in type lets stand in a slot, its rule reads. -/
theorem mem_sockets_of_offers (hs : Arduino.catalogue.shape? typeId = some shape)
    (hr : Rules.builtin.get? typeId = some rule) (ho : offers shape m s = true) (hn : s ≠ .next) :
    s ∈ rule.sockets m := by
  cases ha : shape.arity with
  | none => exact mem_sockets_of_fixed hs hr ha ho hn
  | some arity => exact mem_sockets_of_arity hs hr ha ho hn

end Sockets

section Reached

/-- A walk does not come to what lies in a block that is not enabled. -/
theorem not_sheltered_of_walked {c : Context} (hf : IsForest c.catalogue c.workspace)
    {r : Reference} {place : Place} {id : String} (h : Walked c c.allRoots r place id) :
    ¬ c.workspace.Sheltered id := by
  induction h with
  | root hi => exact fun hs => (root_not_linked hi).2 hs.mem_linkedIds
  | @link r place id n b s _ hb hs hn ih =>
    intro hshelter
    cases hshelter with
    | input hb' hd hne hn' =>
      obtain ⟨rfl, rfl⟩ := Workspace.link_unique hf.linkedOnce hb hb' hn hn'
      rw [hb, Option.some.injEq] at hb'
      subst hb'
      have hnext : s = .next := by
        simp only [Context.follows, Context.reads, hd] at hs
        split_ifs at hs <;> simp_all
      exact hne hnext
    | deeper hid hb' hn' =>
      obtain ⟨rfl, -⟩ := Workspace.link_unique hf.linkedOnce hb hb' hn hn'
      exact ih hid

variable {w : Workspace}

/-- An operand is of a type for operands, whether it is enabled or not. -/
theorem output_of_operand (hf : IsForest Arduino.catalogue w) {r : Reference} {id : String} {b : Block}
    {shape : Shape} (h : Walked (builtinContext w) (builtinContext w).allRoots r .operand id)
    (hb : w.get? id = some b) (hs : Arduino.catalogue.shape? b.typeId = some shape) :
    shape.output = .value := by
  rcases h.root_or_link with ⟨i, -, hp, -⟩ | ⟨id', b', s, -, hp, hb', hn⟩
  · have hroot : (builtinContext w).rootPlace id =
        if b.enabled && shape.isValue then .operand else .top := by
      simp [Context.rootPlace, builtinContext, hb, hs]
    rw [hroot] at hp
    split_ifs at hp with hvalue
    simpa using (Bool.and_eq_true_iff.mp hvalue).2
  · obtain ⟨child, hchild, hst⟩ := hf.stands id' b' s id hb' hn
    rw [hb, Option.some.injEq] at hchild
    subst hchild
    have hout := (output_of_not_misplaced (hst shape hs)).1
    rw [← hp] at hout
    exact hout

/-- In a forest of built-in blocks, what does not lie in a block that is not enabled is walked. -/
theorem sheltered_or_walked (hf : IsForest Arduino.catalogue w)
    (hknown : ∀ id b, w.get? id = some b → ∃ shape, Arduino.catalogue.shape? b.typeId = some shape)
    {id : String} (h : w.Rooted id) (hid : id ∈ w.blocks.keys) :
    w.Sheltered id ∨ ∃ r place, Walked (builtinContext w) (builtinContext w).allRoots r place id := by
  induction h with
  | top hlinked =>
    obtain ⟨i, hi⟩ := List.mem_iff_getElem?.mp (Workspace.mem_programRoots_iff.mpr ⟨hid, hlinked⟩)
    exact .inr ⟨_, _, .root hi⟩
  | @link id n b s _ hb hn ih =>
    obtain ⟨shape, hshape⟩ := hknown id b hb
    have hsocket := hf.sockets id b s n hb hn shape hshape
    rcases ih (Table.mem_keys_of_get? hb) with hshelter | ⟨r, place, hw⟩
    · exact .inl (.deeper hshelter hb hn)
    · by_cases hs : s = .next
      · -- A block that may be followed is no operand, so that the link behind it is followed.
        subst hs
        have hplace : place ≠ .operand := by
          rintro rfl
          have hvalue := output_of_operand hf hw hb hshape
          have hchain := (Shape.isChainable_iff shape).mp hsocket
          simp [hvalue] at hchain
        exact .inr ⟨_, _, .link hw hb (by simp [Context.follows, hplace]) hn⟩
      · cases hen : b.enabled with
        | false => exact .inl (.input hb hen hs hn)
        | true =>
          obtain ⟨rule, hr, -⟩ := builtin_rule hshape
          have hread : s ∈ (builtinContext w).reads b := by
            simpa [Context.reads, builtinContext, hen, hr] using
              mem_sockets_of_offers hshape hr hsocket hs
          exact .inr ⟨_, _, .link hw hb (mem_follows_of_reads hread place) hn⟩

end Reached

/-- A pass that gives a program enters the blocks of all walked references, once each. -/
theorem entered_iff_walked {c : Context} {roots : List String} {text : String}
    (h : generate c roots = .ok text) :
    (entered c roots).Nodup ∧ ∀ id, id ∈ entered c roots ↔ ∃ r place, Walked c roots r place id := by
  obtain ⟨texts, t, ho, -⟩ := pass_of_generate h
  obtain ⟨trees, hf, -⟩ := rootTexts_ok 0 ho
  have hwalked : ∀ v ∈ forestVisits c 0 roots trees, v.Walked c roots := hf.unfold.walked 0 (by simp)
  rw [hf.entered_eq ho]
  refine ⟨hf.leaves.nodup, fun id => ?_⟩
  rw [← map_id_forestVisits hf.unfold 0, List.mem_map]
  constructor
  · rintro ⟨v, hv, rfl⟩
    exact ⟨v.reference, v.place, (hwalked v hv).reference⟩
  · rintro ⟨r, place, hw⟩
    obtain ⟨b, hv⟩ := hf.unfold.visit_of_walked hw
    exact ⟨_, hv, rfl⟩

/-- The types of a loaded workspace are those of its document. -/
theorem exists_shape_of_loaded {catalogue : Catalogue} {nodes : List Document.Node} {w : Workspace}
    (hload : Document.loadNodes catalogue nodes = .ok w)
    (htypes : ∀ e ∈ (nodes.map Document.Node.tree).flatMap Document.Tree.entries,
      (catalogue.shape? e.typeId).isSome = true) {id : String} {b : Block}
    (hb : w.get? id = some b) : ∃ shape, catalogue.shape? b.typeId = some shape := by
  obtain ⟨blocks, nests, p', rfl, hpl, hforest⟩ := Document.loadNodes_restored hload
  obtain ⟨hmem, -⟩ := (Document.get?_workspaceOf hpl.nodup).mp hb
  have hsame : blocks.map Block.typeId =
      ((nodes.map Document.Node.tree).flatMap Document.Tree.entries).map Document.Entry.typeId := by
    rw [← Document.map_typeId_labelForest 0, ← List.forall₂_eq_eq_eq, List.forall₂_map_left_iff,
      List.forall₂_map_right_iff]
    exact hforest.described.flip.imp fun b e he => he.typeId
  have htype : b.typeId ∈ blocks.map Block.typeId := List.mem_map.mpr ⟨b, hmem, rfl⟩
  rw [hsame] at htype
  obtain ⟨e, he, heq⟩ := List.mem_map.mp htype
  rw [← heq]
  exact Option.isSome_iff_exists.mp (htypes e he)

/-- No block of a loaded program is dropped, apart from those that lie in the inputs of a block that
is not enabled. -/
theorem entered_of_loaded (nodes : List Document.Node) (w : Workspace) (text : String)
    (htypes : ∀ e ∈ (nodes.map Document.Node.tree).flatMap Document.Tree.entries,
      (Arduino.catalogue.shape? e.typeId).isSome = true)
    (hload : Document.loadNodes Arduino.catalogue nodes = .ok w) (hgen : ofWorkspace w = .ok text) :
    (entered (builtinContext w) (w.programRoots Arduino.catalogue)).Nodup ∧
      ∀ id, id ∈ entered (builtinContext w) (w.programRoots Arduino.catalogue) ↔
        id ∈ w.blocks.keys ∧ ¬ w.Sheltered id := by
  have hforest : IsForest Arduino.catalogue w := Document.loadNodes_isForest hload
  have hknown : ∀ id b, w.get? id = some b →
      ∃ shape, Arduino.catalogue.shape? b.typeId = some shape := by
    intro id b hb
    exact exists_shape_of_loaded hload htypes hb
  obtain ⟨hnodup, hentered⟩ := entered_iff_walked (c := builtinContext w) hgen
  refine ⟨hnodup, fun id => ?_⟩
  rw [hentered]
  constructor
  · rintro ⟨r, place, hw⟩
    have hpresent : w.get? id ≠ none := present_of_isForest (c := builtinContext w) hforest hw
    obtain ⟨b, hb⟩ := Option.ne_none_iff_exists'.mp hpresent
    exact ⟨Table.mem_keys_of_get? hb, not_sheltered_of_walked (c := builtinContext w) hforest hw⟩
  · rintro ⟨hid, hshelter⟩
    exact (sheltered_or_walked hforest hknown (hforest.rooted id hid) hid).resolve_left hshelter

theorem entered_of_loaded_sampleBranch :
    ∃ w text, Document.loadNodes Arduino.catalogue Document.sampleBranch = .ok w ∧
      ofWorkspace w = .ok text ∧
      entered (builtinContext w) (w.programRoots Arduino.catalogue) = ["b6", "b1", "check", "b5"] ∧
      (entered (builtinContext w) (w.programRoots Arduino.catalogue)).Nodup ∧
      ∀ id, id ∈ entered (builtinContext w) (w.programRoots Arduino.catalogue) ↔
        id ∈ w.blocks.keys ∧ ¬ w.Sheltered id := by
  have hrun : (Document.loadNodes Arduino.catalogue Document.sampleBranch).toOption.map (fun w =>
      ((ofWorkspace w).isOk, entered (builtinContext w) (w.programRoots Arduino.catalogue))) =
        some (true, ["b6", "b1", "check", "b5"]) := by
    decide +kernel
  have htypes : ∀ e ∈ (Document.sampleBranch.map Document.Node.tree).flatMap Document.Tree.entries,
      (Arduino.catalogue.shape? e.typeId).isSome = true := by
    decide +kernel
  cases hload : Document.loadNodes Arduino.catalogue Document.sampleBranch with
  | error problems => simp [hload, Except.toOption] at hrun
  | ok w =>
    simp only [hload, Except.toOption, Option.map_some, Option.some.injEq, Prod.mk.injEq] at hrun
    cases hgen : ofWorkspace w with
    | error f => simp [hgen, Except.isOk, Except.toBool] at hrun
    | ok text =>
      exact ⟨w, text, rfl, hgen, hrun.2,
        entered_of_loaded Document.sampleBranch w text htypes hload hgen⟩

end Program

end BlockSketch
