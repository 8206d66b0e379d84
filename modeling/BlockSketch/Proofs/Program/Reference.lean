import BlockSketch.Proofs.Program.Tree
import Mathlib.Logic.Relation

namespace BlockSketch.Program

/-- The sockets that are followed from a block at a place: those that are read of it, and where it is
not an operand the one behind it. -/
def Context.follows (c : Context) (place : Place) (b : Block) : List Socket :=
  c.reads b ++ if place = .operand then [] else [.next]

/-- A reference is walked, at a place, and names a block. -/
inductive Walked (c : Context) (roots : List String) : Reference → Place → String → Prop where
  | root {i : Nat} {id : String} (h : roots[i]? = some id) :
    Walked c roots (.root i) (c.rootPlace id) id
  | link {r : Reference} {place : Place} {id n : String} {b : Block} {s : Socket}
    (h : Walked c roots r place id) (hb : c.workspace.get? id = some b)
    (hs : s ∈ c.follows place b) (hn : b.linked? s = some n) :
    Walked c roots (.link id s) (placeAt s) n

/-- A socket that is followed leads from a block at a place to another one. -/
def Context.Onward (c : Context) (p q : Place × String) : Prop :=
  ∃ b s, c.workspace.get? p.2 = some b ∧ s ∈ c.follows p.1 b ∧ b.linked? s = some q.2 ∧
    q.1 = placeAt s

/-- Sockets that are followed lead from a block at a place back to the block. -/
def Context.Returns (c : Context) (place : Place) (id : String) : Prop :=
  ∃ place', Relation.TransGen c.Onward (place, id) (place', id)

/-- A visit is through a walked reference, and to the block that the reference names. -/
structure Visit.Walked (c : Context) (roots : List String) (v : Visit) : Prop where
  reference : Program.Walked c roots v.reference v.place v.id
  block : c.workspace.get? v.id = some v.block

section Visits

variable {c : Context} {roots : List String}

theorem mem_follows_of_reads {b : Block} {s : Socket} (h : s ∈ c.reads b) (place : Place) :
    s ∈ c.follows place b :=
  List.mem_append_left _ h

theorem next_not_mem_reads (c : Context) (b : Block) : .next ∉ c.reads b := by
  unfold Context.reads
  split_ifs
  · cases c.rules.get? b.typeId with
    | none => simp
    | some rule => exact rule.next_not_mem_sockets b.mutation
  · simp

theorem next?_eq_some {place : Place} {b : Block} {n : String} (h : place.next? b = some n) :
    .next ∈ c.follows place b ∧ b.linked? .next = some n := by
  unfold Place.next? at h
  split_ifs at h with hp
  exact ⟨by simp [Context.follows, hp], h⟩

mutual

theorem Tree.Unfolds.walked {place : Place} {at? : Option String} {r : Reference} :
    ∀ {t : Tree}, t.Unfolds c place at? → (∀ id, at? = some id → Walked c roots r place id) →
      ∀ v ∈ t.visits r place, v.Walked c roots
  | .leaf, _, _, v, hv => by simp [Tree.visits] at hv
  | .node id b inputs next, h, hw, v, hv => by
    obtain ⟨hat, hb, hinputs, hnext⟩ := h
    have hid := hw id hat
    simp only [Tree.visits, List.mem_cons, List.mem_append] at hv
    rcases hv with rfl | hv | hv
    · exact ⟨hid, hb⟩
    · exact hinputs.walked hid hb (fun s hs => hs) v hv
    · refine hnext.walked (fun n hn => ?_) v hv
      obtain ⟨hs, hl⟩ := next?_eq_some hn
      exact .link hid hb hs hl

theorem Inputs.Unfold.walked {b : Block} {sockets : List Socket} {r : Reference} {place : Place}
    {id : String} : ∀ {inputs : Inputs}, inputs.Unfold c b sockets → Walked c roots r place id →
      c.workspace.get? id = some b → (∀ s ∈ sockets, s ∈ c.reads b) →
        ∀ v ∈ inputs.visits id, v.Walked c roots
  | .nil, _, _, _, _, v, hv => by simp [Inputs.visits] at hv
  | .cons s t others, h, hid, hb, hs, v, hv => by
    obtain ⟨rest, rfl, ht, ho⟩ := h
    rcases List.mem_append.mp hv with hv | hv
    · have hread := mem_follows_of_reads (hs s List.mem_cons_self) place
      exact ht.walked (fun n hn => .link hid hb hread hn) v hv
    · exact ho.walked hid hb (fun s' hs' => hs s' (List.mem_cons_of_mem s hs')) v hv

end

mutual

/-- Apart from the one that leads to it, the references inside a tree are links of its own blocks. -/
theorem Tree.Unfolds.reference {r : Reference} {place : Place} {at? : Option String} :
    ∀ {t : Tree}, t.Unfolds c place at? → ∀ v ∈ t.visits r place,
      v.reference = r ∨ ∃ i ∈ t.ids, ∃ s, v.reference = .link i s
  | .leaf, _, v, hv => by simp [Tree.visits] at hv
  | .node id b inputs next, h, v, hv => by
    obtain ⟨-, -, hinputs, hnext⟩ := h
    simp only [Tree.visits, List.mem_cons, List.mem_append] at hv
    rcases hv with rfl | hv | hv
    · exact .inl rfl
    · rcases hinputs.reference v hv with ⟨s, -, hs⟩ | ⟨i, hi, s, hs⟩
      · exact .inr ⟨id, by simp [Tree.ids], s, hs⟩
      · exact .inr ⟨i, by simp [Tree.ids, hi], s, hs⟩
    · rcases hnext.reference v hv with hs | ⟨i, hi, s, hs⟩
      · exact .inr ⟨id, by simp [Tree.ids], .next, hs⟩
      · exact .inr ⟨i, by simp [Tree.ids, hi], s, hs⟩

/-- The references below a block are links at its sockets, and links of the blocks that stand there. -/
theorem Inputs.Unfold.reference {b : Block} {sockets : List Socket} {id : String} :
    ∀ {inputs : Inputs}, inputs.Unfold c b sockets → ∀ v ∈ inputs.visits id,
      (∃ s ∈ sockets, v.reference = .link id s) ∨ ∃ i ∈ inputs.ids, ∃ s, v.reference = .link i s
  | .nil, _, v, hv => by simp [Inputs.visits] at hv
  | .cons s t others, h, v, hv => by
    obtain ⟨rest, rfl, ht, ho⟩ := h
    rcases List.mem_append.mp hv with hv | hv
    · rcases ht.reference v hv with hs | ⟨i, hi, s', hs⟩
      · exact .inl ⟨s, List.mem_cons_self, hs⟩
      · exact .inr ⟨i, by simp [Inputs.ids, hi], s', hs⟩
    · rcases ho.reference v hv with ⟨s', hs', hs⟩ | ⟨i, hi, s', hs⟩
      · exact .inl ⟨s', List.mem_cons_of_mem s hs', hs⟩
      · exact .inr ⟨i, by simp [Inputs.ids, hi], s', hs⟩

end

/-- The visits go on wherever a followed socket is linked. -/
def ClosedVisits (c : Context) (visits : List Visit) : Prop :=
  ∀ v ∈ visits, ∀ s ∈ c.follows v.place v.block, ∀ n, v.block.linked? s = some n →
    ∃ b, ⟨.link v.id s, placeAt s, n, b⟩ ∈ visits

/-- A tree at a place that is linked begins with a visit there. -/
theorem Tree.Unfolds.head_visit {place : Place} {at? : Option String} {t : Tree}
    (h : t.Unfolds c place at?) {id : String} (hat : at? = some id) (r : Reference) :
    ∃ b, ⟨r, place, id, b⟩ ∈ t.visits r place := by
  cases t with
  | leaf =>
    have hnone : at? = none := h
    simp [hnone] at hat
  | node i b inputs next =>
    obtain ⟨hi, -⟩ := h
    rw [hat, Option.some.injEq] at hi
    subst hi
    exact ⟨b, List.mem_cons_self⟩

/-- Each socket of a block that is linked has its visit. -/
theorem Inputs.Unfold.head_visit {b : Block} {sockets : List Socket} {s : Socket} {n : String}
    (hs : s ∈ sockets) (hn : b.linked? s = some n) (id : String) :
    ∀ {inputs : Inputs}, inputs.Unfold c b sockets →
      ∃ b', ⟨.link id s, placeAt s, n, b'⟩ ∈ inputs.visits id := by
  induction sockets with
  | nil => simp at hs
  | cons s' rest ih =>
    intro inputs h
    cases inputs with
    | nil => simp [Inputs.Unfold] at h
    | cons s₀ t others =>
      obtain ⟨rest', heq, ht, ho⟩ := h
      cases heq
      rcases List.mem_cons.mp hs with rfl | hs
      · obtain ⟨b', hb'⟩ := ht.head_visit hn (.link id s)
        exact ⟨b', List.mem_append_left _ hb'⟩
      · obtain ⟨b', hb'⟩ := ih hs ho
        exact ⟨b', List.mem_append_right _ hb'⟩

/-- Where a followed socket of a block leads, one of the visits below or behind it is. -/
theorem head_follows {place : Place} {id n : String} {b : Block} {inputs : Inputs} {next : Tree}
    {s : Socket} (hinputs : inputs.Unfold c b (c.reads b))
    (hnext : next.Unfolds c .chain (place.next? b)) (hs : s ∈ c.follows place b)
    (hn : b.linked? s = some n) :
    ∃ b', ⟨.link id s, placeAt s, n, b'⟩ ∈
      inputs.visits id ++ next.visits (.link id .next) .chain := by
  rcases List.mem_append.mp hs with hs | hs
  · obtain ⟨b', hb'⟩ := hinputs.head_visit hs hn id
    exact ⟨b', List.mem_append_left _ hb'⟩
  · split_ifs at hs with hp
    · simp at hs
    · rw [List.mem_singleton] at hs
      subst hs
      have hat : place.next? b = some n := by simpa [Place.next?, Block.linked?, hp] using hn
      obtain ⟨b', hb'⟩ := hnext.head_visit hat (.link id .next)
      exact ⟨b', List.mem_append_right _ hb'⟩

theorem ClosedVisits.append {xs ys : List Visit} (hx : ClosedVisits c xs) (hy : ClosedVisits c ys) :
    ClosedVisits c (xs ++ ys) := by
  intro v hv s hs n hn
  rcases List.mem_append.mp hv with hv | hv
  · obtain ⟨b, hb⟩ := hx v hv s hs n hn
    exact ⟨b, List.mem_append_left _ hb⟩
  · obtain ⟨b, hb⟩ := hy v hv s hs n hn
    exact ⟨b, List.mem_append_right _ hb⟩

mutual

theorem Tree.Unfolds.closed {place : Place} {at? : Option String} (r : Reference) :
    ∀ {t : Tree}, t.Unfolds c place at? → ClosedVisits c (t.visits r place)
  | .leaf, _, v, hv => by simp [Tree.visits] at hv
  | .node id b inputs next, h, v, hv => by
    obtain ⟨-, -, hinputs, hnext⟩ := h
    intro s hs n hn
    have hbelow := (hinputs.closed id).append (hnext.closed (.link id .next))
    rcases List.mem_cons.mp hv with rfl | hv
    · obtain ⟨b', hb'⟩ := head_follows hinputs hnext hs hn
      exact ⟨b', List.mem_cons_of_mem _ hb'⟩
    · obtain ⟨b', hb'⟩ := hbelow v hv s hs n hn
      exact ⟨b', List.mem_cons_of_mem _ hb'⟩

theorem Inputs.Unfold.closed {b : Block} {sockets : List Socket} (id : String) :
    ∀ {inputs : Inputs}, inputs.Unfold c b sockets → ClosedVisits c (inputs.visits id)
  | .nil, _, v, hv => by simp [Inputs.visits] at hv
  | .cons s' t others, h, v, hv => by
    obtain ⟨rest, -, ht, ho⟩ := h
    have hboth := (ht.closed (.link id s')).append (ho.closed id)
    exact hboth v hv

end

/-- What is onward of the first block of a tree is below or behind it. -/
theorem visit_of_onward {r : Reference} {place : Place} {id : String} {b : Block} {inputs : Inputs}
    {next : Tree} (hw : Walked c roots r place id) (hb : c.workspace.get? id = some b)
    (hinputs : inputs.Unfold c b (c.reads b)) (hnext : next.Unfolds c .chain (place.next? b))
    {q : Place × String} (h : Relation.TransGen c.Onward (place, id) q) :
    ∃ v ∈ inputs.visits id ++ next.visits (.link id .next) .chain, v.place = q.1 ∧ v.id = q.2 := by
  have hclosed := (hinputs.closed id).append (hnext.closed (.link id .next))
  have hwalked : ∀ v ∈ inputs.visits id ++ next.visits (.link id .next) .chain,
      v.Walked c roots := by
    intro v hv
    rcases List.mem_append.mp hv with hv | hv
    · exact hinputs.walked hw hb (fun s hs => hs) v hv
    · refine hnext.walked (fun n hn => ?_) v hv
      obtain ⟨hs, hl⟩ := next?_eq_some hn
      exact .link hw hb hs hl
  induction h with
  | single hstep =>
    obtain ⟨b', s, hb', hs, hn, hp⟩ := hstep
    rw [hb, Option.some.injEq] at hb'
    subst hb'
    obtain ⟨b', hv⟩ := head_follows hinputs hnext hs hn
    exact ⟨_, hv, hp.symm, rfl⟩
  | tail _ hstep ih =>
    obtain ⟨v, hv, hplace, hid⟩ := ih
    obtain ⟨b', s, hb', hs, hn, hp⟩ := hstep
    rw [← hid, (hwalked v hv).block, Option.some.injEq] at hb'
    subst hb'
    rw [← hplace] at hs
    obtain ⟨b', hv'⟩ := hclosed v hv s hs _ hn
    exact ⟨_, hv', hp.symm, rfl⟩

mutual

/-- From a block in a tree without repetitions no link leads back to it. -/
theorem Tree.Unfolds.not_returns {place : Place} {at? : Option String} {r : Reference} :
    ∀ {t : Tree}, t.Unfolds c place at? → (∀ id, at? = some id → Walked c roots r place id) →
      t.ids.Nodup → ∀ v ∈ t.visits r place, ¬ c.Returns v.place v.id
  | .leaf, _, _, _, v, hv => by simp [Tree.visits] at hv
  | .node id b inputs next, h, hw, hn, v, hv => by
    obtain ⟨hat, hb, hinputs, hnext⟩ := h
    have hid := hw id hat
    rw [Tree.ids, List.nodup_cons, List.nodup_append] at hn
    obtain ⟨hnew, hni, hnn, -⟩ := hn
    simp only [Tree.visits, List.mem_cons, List.mem_append] at hv
    rcases hv with rfl | hv | hv
    · rintro ⟨place', hreturn⟩
      obtain ⟨u, hu, -, hui⟩ := visit_of_onward hid hb hinputs hnext hreturn
      apply hnew
      rw [← Inputs.map_id_visits id, ← Tree.map_id_visits (.link id .next) .chain, ← List.map_append]
      exact List.mem_map.mpr ⟨u, hu, hui⟩
    · exact hinputs.not_returns hid hb (fun s hs => hs) hni v hv
    · refine hnext.not_returns (fun n hn => ?_) hnn v hv
      obtain ⟨hs, hl⟩ := next?_eq_some hn
      exact .link hid hb hs hl

theorem Inputs.Unfold.not_returns {b : Block} {sockets : List Socket} {r : Reference} {place : Place}
    {id : String} : ∀ {inputs : Inputs}, inputs.Unfold c b sockets → Walked c roots r place id →
      c.workspace.get? id = some b → (∀ s ∈ sockets, s ∈ c.reads b) → inputs.ids.Nodup →
        ∀ v ∈ inputs.visits id, ¬ c.Returns v.place v.id
  | .nil, _, _, _, _, _, v, hv => by simp [Inputs.visits] at hv
  | .cons s t others, h, hid, hb, hs, hn, v, hv => by
    obtain ⟨rest, rfl, ht, ho⟩ := h
    rw [Inputs.ids, List.nodup_append] at hn
    rcases List.mem_append.mp hv with hv | hv
    · have hread := mem_follows_of_reads (hs s List.mem_cons_self) place
      exact ht.not_returns (fun n hn => .link hid hb hread hn) hn.1 v hv
    · refine ho.not_returns hid hb (fun s' hs' => ?_) hn.2.1 v hv
      exact hs s' (List.mem_cons_of_mem s hs')

end

/-- The visits of the trees of some roots, which stand in the list of all roots from `i` on. -/
theorem UnfoldRoots.walked {rest : List String} {trees : List Tree} (h : UnfoldRoots c rest trees) :
    ∀ i, (∀ (j : Nat) id, rest[j]? = some id → roots[i + j]? = some id) →
      ∀ v ∈ forestVisits c i rest trees, v.Walked c roots := by
  induction h with
  | nil => simp [forestVisits]
  | @cons id tree rest trees ht _ ih =>
    intro i hroots v hv
    rcases List.mem_append.mp hv with hv | hv
    · refine ht.walked (fun n hn => ?_) v hv
      cases hn
      exact .root (hroots 0 id rfl)
    · refine ih (i + 1) (fun j id' hj => ?_) v hv
      have hnext := hroots (j + 1) id' hj
      rwa [show i + 1 + j = i + (j + 1) by omega]

theorem UnfoldRoots.closed {rest : List String} {trees : List Tree} (h : UnfoldRoots c rest trees) :
    ∀ i, ClosedVisits c (forestVisits c i rest trees) := by
  induction h with
  | nil => simp [forestVisits, ClosedVisits]
  | cons ht _ ih => exact fun i => (ht.closed (.root i)).append (ih (i + 1))

theorem UnfoldRoots.head_visit {rest : List String} {trees : List Tree}
    (h : UnfoldRoots c rest trees) : ∀ (i j : Nat) id, rest[j]? = some id →
      ∃ b, ⟨.root (i + j), c.rootPlace id, id, b⟩ ∈ forestVisits c i rest trees := by
  induction h with
  | nil => simp
  | @cons first tree rest trees ht _ ih =>
    intro i j id hj
    cases j with
    | zero =>
      simp only [List.getElem?_cons_zero, Option.some.injEq] at hj
      subst hj
      obtain ⟨b, hb⟩ := ht.head_visit rfl (.root i)
      exact ⟨b, List.mem_append_left _ hb⟩
    | succ j =>
      obtain ⟨b, hb⟩ := ih (i + 1) j id hj
      rw [show i + 1 + j = i + (j + 1) by omega] at hb
      exact ⟨b, List.mem_append_right _ hb⟩

/-- Where the roots unfold, every walked reference is met. -/
theorem UnfoldRoots.visit_of_walked {trees : List Tree} (h : UnfoldRoots c roots trees)
    {r : Reference} {place : Place} {id : String} (hw : Walked c roots r place id) :
    ∃ b, ⟨r, place, id, b⟩ ∈ forestVisits c 0 roots trees := by
  induction hw with
  | @root i id hi => simpa using h.head_visit 0 i id hi
  | @link r place id n b s _ hb hs hn ih =>
    -- The block that the link belongs to was met, and the visits go on from there.
    obtain ⟨b', hv⟩ := ih
    have hwalked : ∀ v ∈ forestVisits c 0 roots trees, v.Walked c roots := h.walked 0 (by simp)
    have hb' := (hwalked _ hv).block
    rw [hb, Option.some.injEq] at hb'
    subst hb'
    exact h.closed 0 _ hv s hs n hn

end Visits

end BlockSketch.Program
