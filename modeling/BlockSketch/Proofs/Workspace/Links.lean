import BlockSketch.Workspace.Roots
import Mathlib.Data.List.Nodup
import Mathlib.Data.List.Pairwise

namespace BlockSketch

namespace Block

theorem mem_children_iff {b : Block} {n : String} : n ∈ b.children ↔ ∃ s, b.linked? s = some n := by
  simp only [children, List.mem_append, Table.mem_values_iff, Option.mem_toList]
  constructor
  · rintro ((⟨slot, h⟩ | ⟨slot, h⟩) | h)
    · exact ⟨.statement slot, h⟩
    · exact ⟨.value slot, h⟩
    · exact ⟨.next, h⟩
  · rintro ⟨s, h⟩
    cases s with
    | next => exact .inr h
    | statement slot => exact .inl (.inl ⟨slot, h⟩)
    | value slot => exact .inl (.inr ⟨slot, h⟩)

theorem linked?_plug (b : Block) (n : String) (s s' : Socket) :
    (b.plug n s).linked? s' = if s' = s then some n else b.linked? s' := by
  cases s <;> cases s' <;> simp [plug, linked?, Table.get?_insert]

theorem linked?_unplug (b : Block) (s s' : Socket) :
    (b.unplug s).linked? s' = if s' = s then none else b.linked? s' := by
  cases s <;> cases s' <;> simp [unplug, linked?, Table.get?_erase]

theorem linked?_unlink (b : Block) (id : String) (s : Socket) :
    (b.unlink id).linked? s = (b.linked? s).filter (· ≠ id) := by
  cases s <;> simp [unlink, linked?, Table.get?_filter]

theorem children_plug {b : Block} {s : Socket} (n : String) (h : b.linked? s = none) :
    (b.plug n s).children.Perm (b.children ++ [n]) := by
  cases s with
  | next =>
    have hnext : b.next = none := h
    simp [plug, children, hnext]
  | statement slot =>
    have hv := Table.values_insert_of_none n h
    have hcomm : ([n] ++ (b.values.values ++ b.next.toList)).Perm
        ((b.values.values ++ b.next.toList) ++ [n]) := List.perm_append_comm
    simpa only [plug, children, hv, List.append_assoc] using hcomm.append_left b.statements.values
  | value slot =>
    have hv := Table.values_insert_of_none n h
    simp only [plug, children, hv, List.append_assoc]
    exact List.Perm.append_left _ (List.Perm.append_left _ List.perm_append_comm)

theorem slot_unique {t : Table String} (h : t.values.Nodup) {slot slot' n : String}
    (hs : t.get? slot = some n) (hs' : t.get? slot' = some n) : slot = slot' := by
  have he := List.inj_on_of_nodup_map h (Table.mem_of_get? hs) (Table.mem_of_get? hs') rfl
  exact congrArg Prod.fst he

theorem socket_unique {b : Block} (h : b.children.Nodup) {s s' : Socket} {n : String}
    (hs : b.linked? s = some n) (hs' : b.linked? s' = some n) : s = s' := by
  have hslots {t : Table String} {slot : String} (ht : t.get? slot = some n) : n ∈ t.values :=
    Table.mem_values_iff.mpr ⟨slot, ht⟩
  have hnext (ht : b.next = some n) : n ∈ b.next.toList := Option.mem_toList.mpr ht
  simp only [children, List.nodup_append] at h
  obtain ⟨⟨hst, hval, hsv⟩, -, hlast⟩ := h
  have hsn (hm : n ∈ b.statements.values ++ b.values.values) (ht : b.next = some n) : False :=
    hlast n hm n (hnext ht) rfl
  cases s with
  | next =>
    cases s' with
    | next => rfl
    | statement slot => exact (hsn (List.mem_append_left _ (hslots hs')) hs).elim
    | value slot => exact (hsn (List.mem_append_right _ (hslots hs')) hs).elim
  | statement slot =>
    cases s' with
    | next => exact (hsn (List.mem_append_left _ (hslots hs)) hs').elim
    | statement slot' => rw [slot_unique hst hs hs']
    | value slot' => exact absurd rfl (hsv n (hslots hs) n (hslots hs'))
  | value slot =>
    cases s' with
    | next => exact (hsn (List.mem_append_right _ (hslots hs)) hs').elim
    | statement slot' => exact absurd rfl (hsv n (hslots hs') n (hslots hs))
    | value slot' => rw [slot_unique hval hs hs']

end Block

namespace Workspace

/-- Links lead to a block from one that is not linked. -/
inductive Rooted (w : Workspace) : String → Prop where
  | top {id : String} (h : id ∉ w.linkedIds) : Rooted w id
  | link {id n : String} {b : Block} {s : Socket} (h : Rooted w id) (hb : w.get? id = some b)
    (hn : b.linked? s = some n) : Rooted w n

theorem linkedIds_eq (w : Workspace) :
    w.linkedIds = w.blocks.entries.flatMap fun e => e.2.children := by
  simp [linkedIds, Table.values, List.flatMap_map]

theorem mem_linkedIds {w : Workspace} {id n : String} {b : Block} {s : Socket}
    (hb : w.get? id = some b) (hn : b.linked? s = some n) : n ∈ w.linkedIds := by
  rw [linkedIds_eq, List.mem_flatMap]
  exact ⟨(id, b), Table.mem_of_get? hb, Block.mem_children_iff.mpr ⟨s, hn⟩⟩

theorem mem_linkedIds_iff {w : Workspace} {n : String} :
    n ∈ w.linkedIds ↔ ∃ id b s, w.get? id = some b ∧ b.linked? s = some n := by
  constructor
  · intro hn
    rw [linkedIds_eq, List.mem_flatMap] at hn
    obtain ⟨e, he, hn⟩ := hn
    obtain ⟨s, hs⟩ := Block.mem_children_iff.mp hn
    exact ⟨e.1, e.2, s, Table.get?_eq_some_iff.mpr he, hs⟩
  · rintro ⟨id, b, s, hb, hs⟩
    exact mem_linkedIds hb hs

theorem link_unique {w : Workspace} (h : w.linkedIds.Nodup) {id id' n : String} {b b' : Block}
    {s s' : Socket} (hb : w.get? id = some b) (hb' : w.get? id' = some b')
    (hn : b.linked? s = some n) (hn' : b'.linked? s' = some n) : id = id' ∧ s = s' := by
  rw [linkedIds_eq, List.nodup_flatMap] at h
  obtain ⟨hown, hpair⟩ := h
  have hm := Table.mem_of_get? hb
  have hm' := Table.mem_of_get? hb'
  by_cases hid : id = id'
  · subst hid
    rw [hb, Option.some.injEq] at hb'
    subst hb'
    exact ⟨rfl, Block.socket_unique (hown _ hm) hn hn'⟩
  · have : Std.Symm (Function.onFun List.Disjoint fun e : String × Block => e.2.children) :=
      ⟨fun _ _ hd _ hx hy => hd hy hx⟩
    have hdisjoint := hpair.forall hm hm' fun he => hid (congrArg Prod.fst he)
    exact (hdisjoint (Block.mem_children_iff.mpr ⟨s, hn⟩) (Block.mem_children_iff.mpr ⟨s', hn'⟩)).elim

theorem programRootsBy_perm (broken : Position → NotNumber) (w : Workspace) (c : Catalogue) :
    (w.programRootsBy broken c).Perm (w.unlinked.map Prod.fst) :=
  ((sortBy_perm _ _).trans (sortBy_perm _ _)).map Prod.fst

theorem nodup_programRootsBy (broken : Position → NotNumber) (w : Workspace) (c : Catalogue) :
    (w.programRootsBy broken c).Nodup := by
  rw [(w.programRootsBy_perm broken c).nodup_iff]
  exact w.blocks.distinct.sublist (List.filter_sublist.map Prod.fst)

theorem nodup_programRoots (w : Workspace) (c : Catalogue) : (w.programRoots c).Nodup :=
  w.nodup_programRootsBy Position.brokenSum c

theorem mem_unlinked_iff {w : Workspace} {id : String} :
    id ∈ w.unlinked.map Prod.fst ↔ id ∈ w.blocks.keys ∧ id ∉ w.linkedIds := by
  simp only [unlinked, Table.keys, List.mem_map, List.mem_filter, decide_eq_true_eq]
  constructor
  · rintro ⟨e, ⟨he, hn⟩, rfl⟩
    exact ⟨⟨e, he, rfl⟩, hn⟩
  · rintro ⟨⟨e, he, rfl⟩, hn⟩
    exact ⟨e, ⟨he, hn⟩, rfl⟩

theorem mem_programRootsBy_iff {broken : Position → NotNumber} {w : Workspace} {c : Catalogue}
    {id : String} : id ∈ w.programRootsBy broken c ↔ id ∈ w.blocks.keys ∧ id ∉ w.linkedIds := by
  rw [(w.programRootsBy_perm broken c).mem_iff, mem_unlinked_iff]

theorem mem_programRoots_iff {w : Workspace} {c : Catalogue} {id : String} :
    id ∈ w.programRoots c ↔ id ∈ w.blocks.keys ∧ id ∉ w.linkedIds :=
  mem_programRootsBy_iff

theorem mem_topBlocks_iff {w : Workspace} {id : String} :
    id ∈ w.topBlocks ↔ id ∈ w.blocks.keys ∧ id ∉ w.linkedIds := by
  have hperm : w.topBlocks.Perm (w.unlinked.map Prod.fst) := (sortBy_perm _ _).map Prod.fst
  rw [hperm.mem_iff, mem_unlinked_iff]

end Workspace

end BlockSketch
