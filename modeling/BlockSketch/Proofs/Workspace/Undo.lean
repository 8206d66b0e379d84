import BlockSketch.Document.Load
import BlockSketch.Proofs.Workspace.Removal

namespace BlockSketch

namespace Block

variable {b : Block} {s : Socket} {n q : String}

theorem unplug_plug (n : String) (h : b.linked? s = none) : (b.plug n s).unplug s = b := by
  cases s with
  | next =>
    have hnext : b.next = none := h
    rw [plug, unplug, ← hnext]
  | statement slot => simp only [plug, unplug, Table.erase_insert_of_none n h]
  | value slot => simp only [plug, unplug, Table.erase_insert_of_none n h]

/-- A slot that is written keeps its place among the others, so that linking the old block again
restores the order as well. -/
theorem plug_plug (n : String) (h : b.linked? s = some q) : (b.plug n s).plug q s = b := by
  cases s with
  | next =>
    have hnext : b.next = some q := h
    rw [plug, plug, ← hnext]
  | statement slot => simp only [plug, Table.insert_insert_of_get? n h]
  | value slot => simp only [plug, Table.insert_insert_of_get? n h]

theorem linked?_plug_self (b : Block) (n : String) (s : Socket) : (b.plug n s).linked? s = some n := by
  rw [linked?_plug, if_pos rfl]

theorem unlink_of_not_mem (h : n ∉ b.children) : b.unlink n = b := by
  have hslots {t : Table String} (ht : n ∉ t.values) : t.filter (fun _ child => child ≠ n) = t := by
    refine Table.ext (List.filter_eq_self.mpr fun e he => decide_eq_true ?_)
    rintro rfl
    exact ht (List.mem_map_of_mem he)
  simp only [children, List.mem_append, not_or, Option.mem_toList] at h
  obtain ⟨⟨hst, hval⟩, hnext⟩ := h
  have hn : b.next.filter (· ≠ n) = b.next := by
    cases hc : b.next with
    | none => rfl
    | some c => exact Option.filter_some_pos (decide_eq_true fun he => hnext (he ▸ hc))
  simp only [unlink, hslots hst, hslots hval, hn]

end Block

namespace Workspace

variable {w : Workspace} {parent child : String} {b : Block}

theorem connect_eq_error_iff {s : Socket} {e : WorkspaceError} :
    w.connect parent s child = .error e ↔
      w.get? child = none ∧ e = .noSuchBlock child ∨
      w.get? child ≠ none ∧ w.get? parent = none ∧ e = .noSuchBlock parent := by
  cases hc : w.get? child with
  | none => simp [connect, require_of_none hc, bind, Except.bind, eq_comm]
  | some c =>
    cases hb : w.get? parent with
    | none => simp [connect, require_of_some hc, require_of_none hb, bind, Except.bind, eq_comm]
    | some b => simp [connect_of_some s hc hb]

section

variable {w' : Workspace} {s : Socket}

theorem get?_of_connect {previous : Option String} (h : w.connect parent s child = .ok (previous, w'))
    (hb : w.get? parent = some b) : w'.get? parent = some (b.plug child s) := by
  obtain ⟨-, -, rfl⟩ := connect_ok h
  rw [get?, Table.get?_modify, if_pos rfl]
  exact congrArg (Option.map _) hb

theorem modify_modify_eq_self {f g : Block → Block} (hb : w.get? parent = some b)
    (h : g (f b) = b) : (w.blocks.modify parent f).modify parent g = w.blocks := by
  rw [Table.modify_modify]
  refine Table.modify_eq_self fun b' hb' => ?_
  rw [show b' = b from Option.some.inj (hb'.symm.trans hb)]
  exact h

theorem disconnect_of_connect (h : w.connect parent s child = .ok (none, w')) :
    w'.disconnect parent s = .ok (some child, w) := by
  obtain ⟨-, ⟨b, hb, hfree⟩, hw'⟩ := connect_ok h
  rw [disconnect_of_some s (get?_of_connect h hb), Block.linked?_plug_self, hw',
    modify_modify_eq_self hb (Block.unplug_plug child hfree.symm)]

theorem connect_of_connect {q : String} (h : w.connect parent s child = .ok (some q, w'))
    (hq : q ∈ w.blocks.keys) : w'.connect parent s q = .ok (some child, w) := by
  obtain ⟨-, ⟨b, hb, hused⟩, hw'⟩ := connect_ok h
  have hkey : q ∈ w'.blocks.keys := by rw [hw', Table.keys_modify]; exact hq
  obtain ⟨c, hc⟩ : ∃ c, w'.get? q = some c :=
    Option.ne_none_iff_exists'.mp fun hnone => (Table.get?_eq_none_iff _ _).mp hnone hkey
  rw [connect_of_some s hc (get?_of_connect h hb), Block.linked?_plug_self, hw',
    modify_modify_eq_self hb (Block.plug_plug child hused.symm)]

end

theorem without_eq_of_insert (h : w.get? b.id = none) (hl : b.id ∉ w.linkedIds) :
    without ⟨w.blocks.insert b.id b⟩ b.id = w := by
  have hold : w.blocks.map (·.unlink b.id) = w.blocks := by
    refine Table.map_eq_self fun k b' hb' => Block.unlink_of_not_mem fun hmem => hl ?_
    exact mem_linkedIds_iff_children.mpr ⟨k, b', hb', hmem⟩
  rw [without, Table.erase_insert_of_none b h, hold]

/-- Edits are taken back from what they answer, and an edit that fails changes nothing. -/
theorem edits_undone (w : Workspace) :
    (∀ parent s child w', w.connect parent s child = .ok (none, w') →
      w'.disconnect parent s = .ok (some child, w)) ∧
    (∀ parent s child q w', w.connect parent s child = .ok (some q, w') → q ∈ w.blocks.keys →
      w'.connect parent s q = .ok (some child, w)) ∧
    (∀ b, b.id ∉ w.blocks.keys → b.id ∉ w.linkedIds →
      ∃ w', w.insert b = .ok w' ∧ w'.remove b.id = .ok (b, w)) ∧
    (∀ e error, w.edit e = .error error → w.after e = w) ∧
    ∀ parent s child error, w.connect parent s child = .error error ↔
      w.get? child = none ∧ error = .noSuchBlock child ∨
      w.get? child ≠ none ∧ w.get? parent = none ∧ error = .noSuchBlock parent := by
  refine ⟨fun _ _ _ _ => disconnect_of_connect, fun _ _ _ _ _ => connect_of_connect, ?_, ?_,
    fun _ _ _ _ => connect_eq_error_iff⟩
  · intro b hfresh hl
    have hnone : w.get? b.id = none := (Table.get?_eq_none_iff _ _).mpr hfresh
    have hget : get? ⟨w.blocks.insert b.id b⟩ b.id = some b := Table.get?_insert_self w.blocks b.id b
    have hremove : remove ⟨w.blocks.insert b.id b⟩ b.id =
        .ok (b, without ⟨w.blocks.insert b.id b⟩ b.id) := remove_of_some hget
    refine ⟨_, insert_of_none hnone, ?_⟩
    rw [hremove, without_eq_of_insert hnone hl]
  · intro e error h
    rw [after, h]

/-- A block with two slots in use, and two blocks more. -/
def pairedWorkspace : Workspace :=
  Document.workspaceOf
    [{ id := "p", typeId := "arduino_if_else", statements := Table.ofList [("DO0", "x"), ("ELSE", "y")] },
      { id := "x", typeId := "arduino_delay" },
      { id := "y", typeId := "arduino_delay" }]

/-- The first slot is used by another block for a while, the block is made to follow itself, and a block
that leads to others comes and goes. -/
theorem edits_undone_paired :
    (∃ w', pairedWorkspace.connect "p" (.statement "DO0") "y" = .ok (some "x", w') ∧
      w'.connect "p" (.statement "DO0") "x" = .ok (some "y", pairedWorkspace)) ∧
    (∃ w', pairedWorkspace.connect "p" .next "p" = .ok (none, w') ∧
      w'.disconnect "p" .next = .ok (some "p", pairedWorkspace)) ∧
    (∃ w', pairedWorkspace.insert { id := "z", typeId := "arduino_delay", next := some "x" } = .ok w' ∧
      w'.remove "z" =
        .ok ({ id := "z", typeId := "arduino_delay", next := some "x" }, pairedWorkspace)) ∧
    pairedWorkspace.connect "none" .next "nobody" = .error (.noSuchBlock "nobody") ∧
    pairedWorkspace.after (.connect "none" .next "nobody") = pairedWorkspace := by
  obtain ⟨hfree, hused, hinsert, hfail, herror⟩ := edits_undone pairedWorkspace
  have hmissing : pairedWorkspace.connect "none" .next "nobody" = .error (.noSuchBlock "nobody") :=
    (herror "none" .next "nobody" _).mpr (.inl ⟨rfl, rfl⟩)
  refine ⟨⟨_, rfl, ?_⟩, ⟨_, rfl, ?_⟩, ?_, hmissing, ?_⟩
  · exact hused "p" (.statement "DO0") "y" "x" _ rfl (by decide)
  · exact hfree "p" .next "p" _ rfl
  · exact hinsert { id := "z", typeId := "arduino_delay", next := some "x" } (by decide) (by decide)
  · refine hfail _ (.noSuchBlock "nobody") ?_
    rw [edit, hmissing]
    rfl

end Workspace

end BlockSketch
