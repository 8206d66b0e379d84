import BlockSketch.Document.Load
import BlockSketch.Proofs.Workspace.Integrity

namespace BlockSketch

/-- The second block is the first one without its links to `id`. -/
structure Block.Loses (id : String) (b b' : Block) : Prop where
  others : b' = { b with statements := b'.statements, values := b'.values, next := b'.next }
  statements : b'.statements.entries = b.statements.entries.filter (·.2 ≠ id)
  values : b'.values.entries = b.values.entries.filter (·.2 ≠ id)
  next : b'.next = if b.next = some id then none else b.next

namespace Block

theorem loses_unlink (b : Block) (id : String) : b.Loses id (b.unlink id) where
  others := rfl
  statements := rfl
  values := rfl
  next := by
    cases h : b.next with
    | none => simp [unlink, h]
    | some n => by_cases hn : n = id <;> simp [unlink, h, hn]

theorem mem_children_unlink {b : Block} {id n : String} :
    n ∈ (b.unlink id).children ↔ n ∈ b.children ∧ n ≠ id := by
  rw [mem_children_iff, mem_children_iff, ← exists_and_right]
  refine exists_congr fun s => ?_
  rw [linked?_unlink, Option.filter_eq_some_iff, decide_eq_true_eq]

end Block

namespace Workspace

/-- What is left of a workspace if a block is taken out. -/
def without (w : Workspace) (id : String) : Workspace := ⟨(w.blocks.erase id).map (·.unlink id)⟩

section

variable {w : Workspace} {id k n : String} {b : Block}

theorem get?_without (w : Workspace) (id k : String) :
    (w.without id).get? k = if k = id then none else (w.get? k).map (·.unlink id) := by
  rw [get?, without, Table.get?_map, Table.get?_erase]
  split_ifs
  · rfl
  · rfl

theorem keys_without (w : Workspace) (id : String) :
    (w.without id).blocks.keys = w.blocks.keys.filter (· ≠ id) := by
  rw [without, Table.keys_map, Table.keys_erase]

theorem mem_linkedIds_without :
    n ∈ (w.without id).linkedIds ↔
      n ≠ id ∧ ∃ i b, w.get? i = some b ∧ i ≠ id ∧ n ∈ b.children := by
  simp only [mem_linkedIds_iff, ← Block.mem_children_iff, exists_and_left, get?_without]
  constructor
  · rintro ⟨i, b', hb', hn⟩
    split_ifs at hb' with hi
    obtain ⟨b, hb, rfl⟩ := Option.map_eq_some_iff.mp hb'
    obtain ⟨hn, hne⟩ := Block.mem_children_unlink.mp hn
    exact ⟨hne, i, b, hb, hi, hn⟩
  · rintro ⟨hne, i, b, hb, hi, hn⟩
    refine ⟨i, b.unlink id, ?_, Block.mem_children_unlink.mpr ⟨hn, hne⟩⟩
    rw [if_neg hi, hb]
    rfl

theorem mem_linkedIds_iff_children :
    n ∈ w.linkedIds ↔ ∃ i b, w.get? i = some b ∧ n ∈ b.children := by
  simp only [mem_linkedIds_iff, ← Block.mem_children_iff, exists_and_left]

theorem mem_topBlocks_without (hb : w.get? id = some b) :
    k ∈ (w.without id).topBlocks ↔ k ∈ w.topBlocks ∧ k ≠ id ∨
      k ∈ b.children ∧ k ≠ id ∧ k ∈ w.blocks.keys ∧
        ∀ i b', w.get? i = some b' → i ≠ id → k ∉ b'.children := by
  rw [mem_topBlocks_iff, mem_topBlocks_iff, keys_without, mem_linkedIds_without,
    mem_linkedIds_iff_children, List.mem_filter, decide_eq_true_eq]
  constructor
  · rintro ⟨⟨hkey, hne⟩, hlinked⟩
    have hothers : ∀ i b', w.get? i = some b' → i ≠ id → k ∉ b'.children :=
      fun i b' hb' hi hk => hlinked ⟨hne, i, b', hb', hi, hk⟩
    -- If the block taken out did not link to it either, then it was not linked to before.
    by_cases hchild : k ∈ b.children
    · exact .inr ⟨hchild, hne, hkey, hothers⟩
    · refine .inl ⟨⟨hkey, ?_⟩, hne⟩
      rintro ⟨i, b', hb', hk⟩
      by_cases hi : i = id
      · subst hi
        rw [hb, Option.some.injEq] at hb'
        exact hchild (hb' ▸ hk)
      · exact hothers i b' hb' hi hk
  · rintro (⟨⟨hkey, hnot⟩, hne⟩ | ⟨-, hne, hkey, hothers⟩)
    · exact ⟨⟨hkey, hne⟩, fun ⟨_, i, b', hb', _, hk⟩ => hnot ⟨i, b', hb', hk⟩⟩
    · exact ⟨⟨hkey, hne⟩, fun ⟨_, i, b', hb', hi, hk⟩ => hothers i b' hb' hi hk⟩

end

/-- Taking a block out takes away every link to it and nothing else. Its children become unlinked,
unless others link to them. -/
theorem remove_detaches (w : Workspace) (id : String) :
    (w.get? id = none →
      w.remove id = .error (.noSuchBlock id) ∧ w.after (.remove id) = w) ∧
    ∀ b, w.get? id = some b → ∃ w', w.remove id = .ok (b, w') ∧ w.after (.remove id) = w' ∧
      w'.blocks.keys = w.blocks.keys.filter (· ≠ id) ∧
      (∀ k b₀, w.get? k = some b₀ → k ≠ id → ∃ b', w'.get? k = some b' ∧ b₀.Loses id b') ∧
      id ∉ w'.linkedIds ∧
      ∀ k, k ∈ w'.topBlocks ↔ k ∈ w.topBlocks ∧ k ≠ id ∨
        k ∈ b.children ∧ k ≠ id ∧ k ∈ w.blocks.keys ∧
          ∀ i b', w.get? i = some b' → i ≠ id → k ∉ b'.children := by
  constructor
  · intro h
    have hremove := remove_of_none h
    exact ⟨hremove, by simp [after, edit, hremove, Except.map]⟩
  · intro b hb
    have hremove : w.remove id = .ok (b, w.without id) := remove_of_some hb
    refine ⟨w.without id, hremove, by simp [after, edit, hremove, Except.map], keys_without w id, ?_, ?_,
      fun k => mem_topBlocks_without hb⟩
    · intro k b₀ hk hne
      refine ⟨b₀.unlink id, ?_, b₀.loses_unlink id⟩
      rw [get?_without, if_neg hne, hk]
      rfl
    · intro hlinked
      exact (mem_linkedIds_without.mp hlinked).1 rfl

/-- A block that leads to itself, twice to a second block, to one that is not there, and to one that
leads back to it. -/
def knottedWorkspace : Workspace :=
  Document.workspaceOf
    [{ id := "x", typeId := "arduino_while", values := Table.ofList [("WHILE0", "x"), ("MORE", "c")]
       statements := Table.ofList [("DO0", "c"), ("OTHER", "ghost")], next := some "d" },
      { id := "p", typeId := "arduino_if_else", values := Table.ofList [("IF0", "x")]
        statements := Table.ofList [("DO0", "d"), ("ELSE", "x")], next := some "x" },
      { id := "c", typeId := "arduino_delay" },
      { id := "d", typeId := "arduino_delay" }]

theorem remove_detaches_knotted :
    knottedWorkspace.topBlocks = ["p"] ∧ knottedWorkspace.get? "ghost" = none ∧
    knottedWorkspace.remove "ghost" = .error (.noSuchBlock "ghost") ∧
    ∃ b w', knottedWorkspace.get? "x" = some b ∧ knottedWorkspace.remove "x" = .ok (b, w') ∧
      w'.blocks.keys = ["p", "c", "d"] ∧ "x" ∉ w'.linkedIds ∧ "c" ∈ w'.topBlocks ∧ "d" ∉ w'.topBlocks := by
  have hnone : knottedWorkspace.get? "ghost" = none := rfl
  have herror := ((remove_detaches knottedWorkspace "ghost").1 hnone).1
  obtain ⟨w', hremove, -, hkeys, -, hlinked, htop⟩ := (remove_detaches knottedWorkspace "x").2 _ rfl
  refine ⟨by decide +kernel, hnone, herror, _, w', rfl, hremove, ?_, hlinked, ?_, ?_⟩
  · rw [hkeys]
    decide
  · refine (htop "c").mpr (.inr ⟨by decide, by decide, by decide, ?_⟩)
    intro i b hb hi
    have hall : ∀ e ∈ knottedWorkspace.blocks.entries, e.1 ≠ "x" → "c" ∉ e.2.children := by decide
    exact hall (i, b) (Table.get?_eq_some_iff.mp hb) hi
  · intro h
    rcases (htop "d").mp h with ⟨h, -⟩ | ⟨-, -, -, h⟩
    · exact absurd h (by decide +kernel)
    · exact h "p" _ rfl (by decide) (by decide)

end Workspace

end BlockSketch
