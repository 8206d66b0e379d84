import BlockSketch.Proofs.Program.Arrangement
import BlockSketch.Proofs.Workspace.Integrity

namespace BlockSketch

/-- The block with another text; if none is given, it keeps its own. -/
def Block.retext (b : Block) : Option String → Block
  | none => b
  | some s => { b with fields := b.fields.insert "TEXT" (.text s) }

theorem Block.retext_same (b : Block) (u : Option String) :
    ∃ fields, b.retext u = { b with fields := fields } := by
  cases u with
  | none => exact ⟨b.fields, rfl⟩
  | some s => exact ⟨_, rfl⟩

theorem Block.get?_retext (b : Block) (u : Option String) {name : String} (h : name ≠ "TEXT") :
    (b.retext u).fields.get? name = b.fields.get? name := by
  cases u with
  | none => rfl
  | some s =>
    simp only [retext]
    rw [Table.get?_insert, if_neg h]

def Workspace.retext (w : Workspace) (id : String) (u : Option String) : Workspace :=
  ⟨w.blocks.modify id (·.retext u)⟩

theorem Workspace.retext_none (w : Workspace) (id : String) : w.retext id none = w := by
  have hself : w.blocks.modify id (·.retext none) = w.blocks := Table.modify_eq_self fun _ _ => rfl
  rw [retext, hself]

theorem Workspace.setField_text {w : Workspace} {id : String} {b : Block} (s : String)
    (h : w.get? id = some b) : w.setField id "TEXT" (.text s) = .ok (w.retext id (some s)) :=
  update_of_some _ h

namespace Program

def isTextField (f : FieldSpec) : Bool :=
  match f.kind with
  | .text => true
  | _ => false

theorem kind_of_isTextField {f : FieldSpec} (h : isTextField f = true) : f.kind = .text := by
  unfold isTextField at h
  split at h
  · assumption
  · cases h

/-- What the new text makes of the block `i`. -/
def retextAt (id : String) (u : Option String) (i : String) (b : Block) : Block :=
  if i = id then b.retext u else b

section Blocks

variable (w : Workspace) (id : String) (u : Option String) (i : String) (b : Block)

theorem retextAt_same : ∃ fields, retextAt id u i b = { b with fields := fields } := by
  unfold retextAt
  split_ifs
  · exact b.retext_same u
  · exact ⟨b.fields, rfl⟩

theorem get?_retext : (w.retext id u).get? i = (w.get? i).map (retextAt id u i) :=
  w.get?_modify id _ i

theorem reads_retext :
    (builtinContext (w.retext id u)).reads (retextAt id u i b) = (builtinContext w).reads b := by
  obtain ⟨_, hb⟩ := retextAt_same id u i b
  rw [hb]
  rfl

theorem linked?_retext (s : Socket) : (retextAt id u i b).linked? s = b.linked? s := by
  obtain ⟨_, hb⟩ := retextAt_same id u i b
  rw [hb]
  cases s <;> rfl

theorem next?_retext (place : Place) : place.next? (retextAt id u i b) = place.next? b := by
  obtain ⟨_, hb⟩ := retextAt_same id u i b
  rw [hb]
  rfl

theorem rootPlace_retext :
    (builtinContext (w.retext id u)).rootPlace i = (builtinContext w).rootPlace i := by
  have hget : (builtinContext (w.retext id u)).workspace.get? i =
      ((builtinContext w).workspace.get? i).map (retextAt id u i) := get?_retext w id u i
  unfold Context.rootPlace
  rw [hget]
  cases (builtinContext w).workspace.get? i with
  | none => rfl
  | some b =>
    obtain ⟨_, hb⟩ := retextAt_same id u i b
    simp only [Option.map_some, hb]
    rfl

theorem readField_retext (shape : Shape) {name : String} (h : name ≠ "TEXT") :
    readField shape (retextAt id u i b) name = readField shape b name := by
  have hget : (retextAt id u i b).fields.get? name = b.fields.get? name := by
    unfold retextAt
    split_ifs
    · exact b.get?_retext u h
    · rfl
  unfold readField
  rw [hget]

theorem fieldOf_retext (shape : Shape) {name : String} (h : name ≠ "TEXT") :
    fieldOf shape (retextAt id u i b) name = fieldOf shape b name := by
  unfold fieldOf
  rw [readField_retext id u i b shape h]

theorem ownHoisted_retext :
    ownHoisted (builtinContext (w.retext id u)) (retextAt id u i b) = ownHoisted (builtinContext w) b := by
  have hsame (shape : Shape) (rule : Rule) : rule.hoisted (fieldOf shape (retextAt id u i b)) =
      rule.hoisted (fieldOf shape b) := by
    cases rule with
    | stripInit =>
      simp only [Rule.hoisted, fieldOf_retext id u i b shape (show "NUM_LEDS" ≠ "TEXT" by decide),
        fieldOf_retext id u i b shape (show "PIN" ≠ "TEXT" by decide)]
    | _ => rfl
  obtain ⟨fields, hb⟩ := retextAt_same id u i b
  rw [hb] at hsame ⊢
  simp only [ownHoisted, builtinContext, hsame]

theorem hasField_retext {shape : Shape} {name : String}
    (hs : Arduino.catalogue.shape? b.typeId = some shape) (h : HasField shape b name) :
    HasField shape (retextAt id u i b) name := by
  by_cases hname : name = "TEXT"
  · subst hname
    have hall : ∀ e ∈ Arduino.types, (e.2.field? "TEXT").all isTextField = true := by decide
    obtain ⟨spec, hspec, -⟩ := h
    have hkind := hall _ (Arduino.mem_types hs)
    simp only [hspec, Option.all_some] at hkind
    refine ⟨spec, hspec, ?_⟩
    rw [kind_of_isTextField hkind]
    trivial
  · rw [← exists_readField_iff, readField_retext id u i b shape hname, exists_readField_iff]
    exact h

theorem admits_retext {place : Place} (h : (builtinContext w).Admits place b) :
    (builtinContext (w.retext id u)).Admits place (retextAt id u i b) := by
  obtain ⟨fields, hb⟩ := retextAt_same id u i b
  intro hen
  obtain ⟨shape, rule, hs, hr, hout, hrule, hentry, hfault⟩ := h (by rw [hb] at hen; exact hen)
  refine ⟨shape, rule, by rw [hb]; exact hs, by rw [hb]; exact hr, hout, hrule, hentry, ?_⟩
  rw [Rule.fault?_eq_none_iff] at hfault ⊢
  refine ⟨fun name hname => hasField_retext id u i b hs (hfault.1 name hname), ?_⟩
  rw [fieldOf_retext id u i b shape (show "OP" ≠ "TEXT" by decide)]
  exact hfault.2

end Blocks

mutual

/-- The tree in which the block `id` has another text. -/
def Tree.retext (id : String) (u : Option String) : Tree → Tree
  | .leaf => .leaf
  | .node i b inputs next => .node i (retextAt id u i b) (inputs.retext id u) (next.retext id u)

def Inputs.retext (id : String) (u : Option String) : Inputs → Inputs
  | .nil => .nil
  | .cons s t others => .cons s (t.retext id u) (others.retext id u)

end

def Visit.retext (id : String) (u : Option String) (v : Visit) : Visit :=
  { v with block := retextAt id u v.id v.block }

section Trees

variable {w : Workspace} {id : String} (u : Option String)

mutual

theorem Tree.Unfolds.retext {place : Place} {at? : Option String} :
    ∀ {t : Tree}, t.Unfolds (builtinContext w) place at? →
      (t.retext id u).Unfolds (builtinContext (w.retext id u)) place at?
  | .leaf, h => h
  | .node i b inputs next, h => by
    obtain ⟨hat, hb, hi, hn⟩ := h
    have hget : w.get? i = some b := hb
    refine ⟨hat, ?_, ?_, ?_⟩
    · show (w.retext id u).get? i = _
      rw [get?_retext, hget]
      rfl
    · rw [reads_retext]
      exact hi.retext
    · rw [next?_retext]
      exact hn.retext

theorem Inputs.Unfold.retext {i : String} {b : Block} {sockets : List Socket} :
    ∀ {inputs : Inputs}, inputs.Unfold (builtinContext w) b sockets →
      (inputs.retext id u).Unfold (builtinContext (w.retext id u)) (retextAt id u i b) sockets
  | .nil, h => h
  | .cons s t others, h => by
    obtain ⟨rest, hs, ht, ho⟩ := h
    refine ⟨rest, hs, ?_, ho.retext⟩
    rw [linked?_retext]
    exact ht.retext

end

mutual

theorem Tree.visits_retext (r : Reference) (place : Place) :
    ∀ t : Tree, (t.retext id u).visits r place = (t.visits r place).map (Visit.retext id u)
  | .leaf => rfl
  | .node i b inputs next => by
    simp only [Tree.retext, Tree.visits, List.map_cons, List.map_append, Inputs.visits_retext i inputs,
      Tree.visits_retext _ _ next]
    rfl

theorem Inputs.visits_retext (i : String) :
    ∀ inputs : Inputs, (inputs.retext id u).visits i = (inputs.visits i).map (Visit.retext id u)
  | .nil => rfl
  | .cons s t others => by
    simp only [Inputs.retext, Inputs.visits, List.map_append, Tree.visits_retext _ _ t,
      Inputs.visits_retext i others]

end

theorem Tree.ids_retext (t : Tree) : (t.retext id u).ids = t.ids := by
  rw [← Tree.map_id_visits (.root 0) .top, Tree.visits_retext, List.map_map,
    ← Tree.map_id_visits (.root 0) .top t]
  rfl

mutual

theorem Tree.hoisted_retext : ∀ t : Tree,
    (t.retext id u).hoisted (builtinContext (w.retext id u)) = t.hoisted (builtinContext w)
  | .leaf => rfl
  | .node i b inputs next => by
    simp only [Tree.retext, Tree.hoisted, ownHoisted_retext, Inputs.hoisted_retext inputs,
      Tree.hoisted_retext next]

theorem Inputs.hoisted_retext : ∀ inputs : Inputs,
    (inputs.retext id u).hoisted (builtinContext (w.retext id u)) = inputs.hoisted (builtinContext w)
  | .nil => rfl
  | .cons s t others => by
    simp only [Inputs.retext, Inputs.hoisted, Tree.hoisted_retext t, Inputs.hoisted_retext others]

end

mutual

/-- A tree without the block stands for the same text as before. -/
theorem Tree.alike_retext :
    ∀ t : Tree, id ∉ t.ids →
      t.Alike (builtinContext w) (builtinContext (w.retext id u)) (t.retext id u)
  | .leaf, _ => ⟨rfl, rfl, rfl⟩
  | .node i b inputs next, h => by
    simp only [Tree.ids, List.mem_cons, List.mem_append, not_or] at h
    obtain ⟨hid, hi, hn⟩ := h
    have hb : retextAt id u i b = b := if_neg fun he => hid he.symm
    have hinputs := Inputs.alike_retext inputs hi
    have hnext := Tree.alike_retext next hn
    have hblock : blockText (builtinContext w) b = blockText (builtinContext (w.retext id u)) b := rfl
    refine ⟨?_, ?_, (Tree.hoisted_retext u _).symm⟩
    · simp only [Tree.retext, Tree.chainText, hb, hblock, hinputs.chain, hinputs.operand, hnext.chain]
    · simp only [Tree.retext, Tree.operand, hb, hblock, hinputs.chain, hinputs.operand]

theorem Inputs.alike_retext :
    ∀ inputs : Inputs, id ∉ inputs.ids →
      inputs.Alike (builtinContext w) (builtinContext (w.retext id u)) (inputs.retext id u)
  | .nil, _ => ⟨rfl, rfl, rfl⟩
  | .cons s t others, h => by
    simp only [Inputs.ids, List.mem_append, not_or] at h
    have hfirst := Tree.alike_retext t h.1
    have hothers := Inputs.alike_retext others h.2
    refine ⟨?_, ?_, (Inputs.hoisted_retext u _).symm⟩
    · funext s'
      simp only [Inputs.retext, Inputs.chainText, hfirst.chain, hothers.chain]
    · funext s'
      simp only [Inputs.retext, Inputs.operand, hfirst.operand, hothers.operand]

end

end Trees

section Forests

variable {w : Workspace} {id : String} {roots : List String} {trees : List Tree}

theorem UnfoldRoots.retext (h : UnfoldRoots (builtinContext w) roots trees) (u : Option String) :
    UnfoldRoots (builtinContext (w.retext id u)) roots (trees.map (Tree.retext id u)) := by
  induction h with
  | nil => exact .nil
  | cons ht _ ih =>
    refine .cons ?_ ih
    rw [rootPlace_retext]
    exact ht.retext u

theorem forestVisits_retext (u : Option String) (h : UnfoldRoots (builtinContext w) roots trees) :
    ∀ i, forestVisits (builtinContext (w.retext id u)) i roots (trees.map (Tree.retext id u)) =
      (forestVisits (builtinContext w) i roots trees).map (Visit.retext id u) := by
  induction h with
  | nil => exact fun i => rfl
  | cons _ _ ih =>
    intro i
    simp only [List.map_cons, forestVisits, rootPlace_retext, Tree.visits_retext, List.map_append, ih]

/-- If there is a program, then there is one with the new text as well. -/
theorem FoundForest.generate_retext {t t' : Trail}
    (h : FoundForest (builtinContext w) 0 roots t t' trees) (id : String) (u : Option String) :
    generate (builtinContext (w.retext id u)) roots =
      .ok (forestText (builtinContext (w.retext id u)) roots (trees.map (Tree.retext id u))) := by
  have hunfold : UnfoldRoots (builtinContext (w.retext id u)) roots (trees.map (Tree.retext id u)) :=
    h.unfold.retext u
  have hids : (trees.map (Tree.retext id u)).flatMap Tree.ids = trees.flatMap Tree.ids := by
    simp only [List.flatMap_map, Tree.ids_retext]
  have hadmitted : ∀ v ∈ forestVisits (builtinContext (w.retext id u)) 0 roots
      (trees.map (Tree.retext id u)), (builtinContext (w.retext id u)).Admits v.place v.block := by
    rw [forestVisits_retext u h.unfold, List.forall_mem_map]
    exact fun v hv => admits_retext w id u v.id v.block (h.admitted v hv)
  have hfound : FoundForest (builtinContext (w.retext id u)) 0 roots {}
      (({} : Trail).extend ((trees.map (Tree.retext id u)).flatMap Tree.ids)
        ((trees.map (Tree.retext id u)).flatMap (Tree.hoisted (builtinContext (w.retext id u)))))
      (trees.map (Tree.retext id u)) :=
    ⟨hunfold, hadmitted, hids ▸ h.leaves.nodup, by simp, rfl⟩
  obtain ⟨text, hg⟩ := hfound.sound.exists_generate
  rw [hg, forestText_of_generate hg hunfold]

end Forests

end Program

end BlockSketch
