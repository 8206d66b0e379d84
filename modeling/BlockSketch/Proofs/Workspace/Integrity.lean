import BlockSketch.Proofs.Workspace.Links
import BlockSketch.Workspace.Edit

namespace BlockSketch

namespace Workspace

variable {w w' : Workspace} {id : String} {b : Block}

theorem require_ok (h : w.require id = .ok b) : w.get? id = some b := by
  unfold require at h
  cases hb : w.get? id with
  | none => simp [hb] at h
  | some b' =>
    simp only [hb, Except.ok.injEq] at h
    rw [h]

theorem insert_ok (h : w.insert b = .ok w') :
    b.id ∉ w.blocks.keys ∧ w' = ⟨w.blocks.insert b.id b⟩ := by
  unfold insert at h
  split_ifs at h with hc
  simp only [Except.ok.injEq] at h
  refine ⟨fun hm => hc ?_, h.symm⟩
  exact (Table.contains_iff w.blocks b.id).mpr hm

theorem remove_ok (h : w.remove id = .ok (b, w')) :
    w.get? id = some b ∧ w' = ⟨(w.blocks.erase id).map (·.unlink id)⟩ := by
  unfold remove at h
  cases hr : w.require id with
  | error e => simp [hr] at h
  | ok b' =>
    simp only [hr, Except.ok.injEq, Prod.mk.injEq] at h
    obtain ⟨rfl, rfl⟩ := h
    exact ⟨require_ok hr, rfl⟩

theorem update_ok {f : Block → Block} (h : w.update id f = .ok w') :
    (∃ b, w.get? id = some b) ∧ w' = ⟨w.blocks.modify id f⟩ := by
  unfold update at h
  cases hr : w.require id with
  | error e => simp [hr] at h
  | ok b =>
    simp only [hr, Except.ok.injEq] at h
    exact ⟨⟨b, require_ok hr⟩, h.symm⟩

theorem connect_ok {child : String} {s : Socket} {previous : Option String}
    (h : w.connect id s child = .ok (previous, w')) :
    (∃ b, w.get? child = some b) ∧ (∃ b, w.get? id = some b ∧ previous = b.linked? s) ∧
      w' = ⟨w.blocks.modify id (·.plug child s)⟩ := by
  unfold connect at h
  cases hc : w.require child with
  | error e => simp [hc, bind, Except.bind] at h
  | ok c =>
    cases hp : w.require id with
    | error e => simp [hc, hp, bind, Except.bind] at h
    | ok b =>
      simp only [hc, hp, bind, Except.bind, pure, Except.pure, Except.ok.injEq, Prod.mk.injEq] at h
      exact ⟨⟨c, require_ok hc⟩, ⟨b, require_ok hp, h.1.symm⟩, h.2.symm⟩

theorem disconnect_ok {s : Socket} {previous : Option String}
    (h : w.disconnect id s = .ok (previous, w')) :
    (∃ b, w.get? id = some b ∧ previous = b.linked? s) ∧ w' = ⟨w.blocks.modify id (·.unplug s)⟩ := by
  unfold disconnect at h
  cases hp : w.require id with
  | error e => simp [hp, bind, Except.bind] at h
  | ok b =>
    simp only [hp, bind, Except.bind, pure, Except.pure, Except.ok.injEq, Prod.mk.injEq] at h
    exact ⟨⟨b, require_ok hp, h.1.symm⟩, h.2.symm⟩

theorem get?_modify (w : Workspace) (id : String) (f : Block → Block) (i : String) :
    get? ⟨w.blocks.modify id f⟩ i = (w.get? i).map fun b => if i = id then f b else b := by
  rw [get?, Table.get?_modify, get?]
  split_ifs
  · rfl
  · rw [Option.map_id']

theorem require_of_some (h : w.get? id = some b) : w.require id = .ok b := by
  rw [require, h]

theorem require_of_none (h : w.get? id = none) : w.require id = .error (.noSuchBlock id) := by
  rw [require, h]

theorem insert_of_none (h : w.get? b.id = none) : w.insert b = .ok ⟨w.blocks.insert b.id b⟩ := by
  have hc : ¬ w.contains b.id = true := fun hc =>
    (Table.get?_eq_none_iff _ _).mp h ((Table.contains_iff _ _).mp hc)
  rw [insert, if_neg hc]

theorem remove_of_some (h : w.get? id = some b) :
    w.remove id = .ok (b, ⟨(w.blocks.erase id).map (·.unlink id)⟩) := by
  rw [remove, require_of_some h]

theorem remove_of_none (h : w.get? id = none) : w.remove id = .error (.noSuchBlock id) := by
  rw [remove, require_of_none h]

theorem update_of_some (f : Block → Block) (h : w.get? id = some b) :
    w.update id f = .ok ⟨w.blocks.modify id f⟩ := by
  rw [update, require_of_some h]

theorem connect_of_some {child : String} {c : Block} (s : Socket) (hc : w.get? child = some c)
    (hb : w.get? id = some b) :
    w.connect id s child = .ok (b.linked? s, ⟨w.blocks.modify id (·.plug child s)⟩) := by
  rw [connect, require_of_some hc, require_of_some hb]
  rfl

theorem disconnect_of_some (s : Socket) (hb : w.get? id = some b) :
    w.disconnect id s = .ok (b.linked? s, ⟨w.blocks.modify id (·.unplug s)⟩) := by
  rw [disconnect, require_of_some hb]
  rfl

/-- Every block is stored under its own id, and links only to blocks that are there. -/
structure Intact (w : Workspace) : Prop where
  keyed : ∀ id b, w.get? id = some b → b.id = id
  linked : ∀ id b, w.get? id = some b → ∀ n ∈ b.children, n ∈ w.blocks.keys

theorem Intact.empty : Workspace.empty.Intact := ⟨nofun, nofun⟩

theorem Intact.insert (h : w.Intact) (hb : b.children = []) : Intact ⟨w.blocks.insert b.id b⟩ := by
  have hkeys : ∀ n ∈ w.blocks.keys, n ∈ (w.blocks.insert b.id b).keys := by
    intro n hn
    rw [Table.keys_insert]
    split_ifs
    · exact hn
    · exact List.mem_append_left _ hn
  refine ⟨?_, ?_⟩
  · intro id b' hb'
    rw [Workspace.get?, Table.get?_insert] at hb'
    split_ifs at hb' with hid
    · cases hb'
      exact hid.symm
    · exact h.keyed id b' hb'
  · intro id b' hb' n hn
    rw [Workspace.get?, Table.get?_insert] at hb'
    split_ifs at hb' with hid
    · cases hb'
      simp [hb] at hn
    · exact hkeys n (h.linked id b' hb' n hn)

/-- Every link to the block that is taken out is taken away, also one of several on a block. -/
theorem Intact.remove (h : w.Intact) (id : String) :
    Intact ⟨(w.blocks.erase id).map (·.unlink id)⟩ := by
  have hget {k : String} {b : Block}
      (hb : Workspace.get? ⟨(w.blocks.erase id).map (·.unlink id)⟩ k = some b) :
      ∃ b', w.get? k = some b' ∧ b = b'.unlink id := by
    rw [Workspace.get?, Table.get?_map, Table.get?_erase] at hb
    split_ifs at hb
    · simp at hb
    · obtain ⟨b', hb', rfl⟩ := Option.map_eq_some_iff.mp hb
      exact ⟨b', hb', rfl⟩
  refine ⟨?_, ?_⟩
  · intro k b hb
    obtain ⟨b', hb', rfl⟩ := hget hb
    exact h.keyed k b' hb'
  · intro k b hb n hn
    obtain ⟨b', hb', rfl⟩ := hget hb
    obtain ⟨s, hs⟩ := Block.mem_children_iff.mp hn
    rw [Block.linked?_unlink, Option.filter_eq_some_iff, decide_eq_true_eq] at hs
    have hkey := h.linked k b' hb' n (Block.mem_children_iff.mpr ⟨s, hs.1⟩)
    simp only [Table.keys_map, Table.keys_erase, List.mem_filter, decide_eq_true_eq]
    exact ⟨hkey, hs.2⟩

/-- A change of one block that keeps its id and links it to nothing but blocks that are there. -/
theorem Intact.modify (h : w.Intact) {f : Block → Block} (hid : ∀ b, (f b).id = b.id)
    (hf : ∀ b, ∀ n ∈ (f b).children, n ∈ b.children ∨ n ∈ w.blocks.keys) :
    Intact ⟨w.blocks.modify id f⟩ := by
  have hget {k : String} {b : Block} (hb : Workspace.get? ⟨w.blocks.modify id f⟩ k = some b) :
      ∃ b', w.get? k = some b' ∧ (b = b' ∨ b = f b') := by
    rw [Workspace.get?, Table.get?_modify] at hb
    split_ifs at hb
    · obtain ⟨b', hb', rfl⟩ := Option.map_eq_some_iff.mp hb
      exact ⟨b', hb', .inr rfl⟩
    · exact ⟨b, hb, .inl rfl⟩
  refine ⟨?_, ?_⟩
  · intro k b hb
    obtain ⟨b', hb', rfl | rfl⟩ := hget hb
    · exact h.keyed k b hb'
    · rw [hid]
      exact h.keyed k b' hb'
  · intro k b hb n hn
    rw [Table.keys_modify]
    obtain ⟨b', hb', rfl | rfl⟩ := hget hb
    · exact h.linked k b hb' n hn
    · rcases hf b' n hn with hold | hkey
      · exact h.linked k b' hb' n hold
      · exact hkey

theorem Intact.update (h : w.Intact) {f : Block → Block} (hu : w.update id f = .ok w')
    (hid : ∀ b, (f b).id = b.id) (hf : ∀ b, (f b).children = b.children) : w'.Intact := by
  obtain ⟨-, rfl⟩ := update_ok hu
  exact h.modify hid fun b n hn => .inl (hf b ▸ hn)

end Workspace

/-- An edit that brings no links of its own: a block that is inserted has none. -/
def Edit.isLinkFree : Edit → Bool
  | .insert b => b.children.isEmpty
  | _ => true

namespace Workspace

variable {w w' : Workspace} {e : Edit}

theorem ok_of_map {α β : Type} {f : α → β} {x : Except WorkspaceError α} {r : β}
    (h : x.map f = .ok r) : ∃ a, x = .ok a ∧ f a = r := by
  cases x with
  | error e => cases h
  | ok a => exact ⟨a, rfl, Except.ok.inj h⟩

theorem Intact.edit {answer : EditAnswer} (h : w.Intact) (hf : e.isLinkFree = true)
    (he : w.edit e = .ok (answer, w')) : w'.Intact := by
  cases e with
  | insert b =>
    obtain ⟨r, hr, heq⟩ := ok_of_map he
    obtain ⟨-, rfl⟩ := insert_ok hr
    cases heq
    exact h.insert (List.isEmpty_iff.mp hf)
  | remove id =>
    obtain ⟨r, hr, heq⟩ := ok_of_map he
    obtain ⟨-, hw⟩ := remove_ok hr
    cases heq
    rw [hw]
    exact h.remove id
  | setField id name v =>
    obtain ⟨r, hr, heq⟩ := ok_of_map he
    cases heq
    exact h.update hr (fun _ => rfl) (fun _ => rfl)
  | setMutation id m =>
    obtain ⟨r, hr, heq⟩ := ok_of_map he
    cases heq
    exact h.update hr (fun _ => rfl) (fun _ => rfl)
  | setEnabled id on =>
    obtain ⟨r, hr, heq⟩ := ok_of_map he
    cases heq
    exact h.update hr (fun _ => rfl) (fun _ => rfl)
  | connect parent s child =>
    obtain ⟨r, hr, heq⟩ := ok_of_map he
    obtain ⟨⟨c, hc⟩, -, hw⟩ := connect_ok hr
    cases heq
    rw [hw]
    refine h.modify (fun b => by cases s <;> rfl) fun b n hn => ?_
    obtain ⟨s', hs'⟩ := Block.mem_children_iff.mp hn
    rw [Block.linked?_plug] at hs'
    split_ifs at hs'
    · cases hs'
      exact .inr (Table.mem_keys_of_get? hc)
    · exact .inl (Block.mem_children_iff.mpr ⟨s', hs'⟩)
  | disconnect parent s =>
    obtain ⟨r, hr, heq⟩ := ok_of_map he
    obtain ⟨-, hw⟩ := disconnect_ok hr
    cases heq
    rw [hw]
    refine h.modify (fun b => by cases s <;> rfl) fun b n hn => ?_
    obtain ⟨s', hs'⟩ := Block.mem_children_iff.mp hn
    rw [Block.linked?_unplug] at hs'
    split_ifs at hs'
    exact .inl (Block.mem_children_iff.mpr ⟨s', hs'⟩)

theorem Intact.after (h : w.Intact) (hf : e.isLinkFree = true) : (w.after e).Intact := by
  unfold Workspace.after
  cases he : w.edit e with
  | error err => exact h
  | ok r => exact h.edit hf he

theorem Intact.run {es : List Edit} (h : w.Intact) (hf : ∀ e ∈ es, e.isLinkFree = true) :
    (w.run es).Intact := by
  induction es generalizing w with
  | nil => exact h
  | cons e es ih =>
    rw [List.forall_mem_cons] at hf
    exact ih (h.after hf.1) hf.2

end Workspace

end BlockSketch
