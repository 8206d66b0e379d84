import BlockSketch.Catalogue.Arduino
import BlockSketch.Document.Load
import BlockSketch.Proofs.Workspace.Links
import Mathlib.Logic.Relation
import Mathlib.Order.WellFoundedSet

namespace BlockSketch.Workspace

/-- A link leads from a block to a block that is there. -/
def Links (w : Workspace) (id n : String) : Prop :=
  n ∈ w.blocks.keys ∧ ∃ b s, w.get? id = some b ∧ b.linked? s = some n

/-- No links lead from a block back to it. -/
def Acyclic (w : Workspace) : Prop := ∀ id, ¬ Relation.TransGen w.Links id id

section

variable {w : Workspace} {id : String}

/-- Numbers that grow along every link show that links never lead back. -/
theorem acyclic_of_rank (rank : String → Nat)
    (h : ∀ e ∈ w.blocks.entries, ∀ n ∈ e.2.children, n ∈ w.blocks.keys → rank e.1 < rank n) :
    w.Acyclic := by
  have hlink : ∀ i n, w.Links i n → rank i < rank n := by
    rintro i n ⟨hn, b, s, hb, hs⟩
    exact h (i, b) (Table.mem_of_get? hb) n (Block.mem_children_iff.mpr ⟨s, hs⟩) hn
  have hpath : ∀ i n, Relation.TransGen w.Links i n → rank i < rank n := by
    intro i n hin
    induction hin with
    | single hstep => exact hlink _ _ hstep
    | tail _ hstep ih => exact ih.trans (hlink _ _ hstep)
  intro i hi
  exact absurd (hpath i i hi) (Nat.lt_irrefl _)

/-- A block is a root, or a link leads to it. -/
theorem mem_programRoots_or_linked (c : Catalogue) (hid : id ∈ w.blocks.keys) :
    id ∈ w.programRoots c ∨ ∃ i ∈ w.blocks.keys, w.Links i id := by
  by_cases hl : id ∈ w.linkedIds
  · obtain ⟨i, b, s, hb, hs⟩ := mem_linkedIds_iff.mp hl
    exact .inr ⟨i, Table.mem_keys_of_get? hb, hid, b, s, hb, hs⟩
  · exact .inl (mem_programRoots_iff.mpr ⟨hid, hl⟩)

/-- Links that never lead back have an order: finitely many blocks have a first one. -/
theorem Acyclic.wellFoundedOn (h : w.Acyclic) :
    {i | i ∈ w.blocks.keys}.WellFoundedOn (Relation.TransGen w.Links) := by
  have horder : IsStrictOrder String (Relation.TransGen w.Links) :=
    { irrefl := h, trans := fun _ _ _ => Relation.TransGen.trans }
  exact (List.finite_toSet w.blocks.keys).wellFoundedOn

theorem Acyclic.exists_root (h : w.Acyclic) (c : Catalogue) (hid : id ∈ w.blocks.keys) :
    ∃ root ∈ w.programRoots c, Relation.ReflTransGen w.Links root id := by
  -- By induction along the links: what leads to a block is reached from a root already.
  apply h.wellFoundedOn.induction hid
    (P := fun n => ∃ root ∈ w.programRoots c, Relation.ReflTransGen w.Links root n)
  intro n hn ih
  rcases mem_programRoots_or_linked c hn with hroot | ⟨i, hi, hlink⟩
  · exact ⟨n, hroot, .refl⟩
  · obtain ⟨root, hroot, hpath⟩ := ih i hi (.single hlink)
    exact ⟨root, hroot, hpath.tail hlink⟩

end

/-- If links never lead back, then every block can be reached by following links from a root of the
program. Links may lead nowhere, and several may lead to one block. -/
theorem reached_from_roots (w : Workspace) (c : Catalogue) (h : w.Acyclic) :
    (∀ id b, w.get? id = some b →
      ∃ root ∈ w.programRoots c, Relation.ReflTransGen w.Links root id) ∧
    (w.size ≠ 0 → w.programRoots c ≠ []) := by
  constructor
  · intro id b hb
    exact h.exists_root c (Table.mem_keys_of_get? hb)
  · intro hsize
    have hentries : w.blocks.entries ≠ [] := fun hnil => hsize (by simp [size, Table.size, hnil])
    obtain ⟨e, r, he⟩ := List.exists_cons_of_ne_nil hentries
    have hkey : e.1 ∈ w.blocks.keys := by simp [Table.keys, he]
    obtain ⟨root, hroot, -⟩ := h.exists_root c hkey
    exact List.ne_nil_of_mem hroot

/-- Two blocks that lead to a third one, which is followed by a block that is not there. The first has
its own condition too. -/
def sharedWorkspace : Workspace :=
  Document.workspaceOf
    [{ id := "e", typeId := "arduino_delay", next := some "ghost" },
      { id := "w", typeId := "arduino_while", values := Table.ofList [("WHILE0", "n")]
        statements := Table.ofList [("DO0", "e")] },
      { id := "n", typeId := "arduino_number" },
      { id := "d", typeId := "arduino_delay", next := some "e" }]

theorem reached_from_roots_shared :
    sharedWorkspace.Acyclic ∧ sharedWorkspace.programRoots Arduino.catalogue = ["w", "d"] ∧
    (∀ id b, sharedWorkspace.get? id = some b →
      ∃ root ∈ sharedWorkspace.programRoots Arduino.catalogue,
        Relation.ReflTransGen sharedWorkspace.Links root id) ∧
    (sharedWorkspace.size ≠ 0 → sharedWorkspace.programRoots Arduino.catalogue ≠ []) := by
  have hacyclic : sharedWorkspace.Acyclic :=
    acyclic_of_rank (fun id => if id = "w" ∨ id = "d" then 0 else 1) (by decide)
  exact ⟨hacyclic, by decide +kernel, reached_from_roots sharedWorkspace Arduino.catalogue hacyclic⟩

end BlockSketch.Workspace
