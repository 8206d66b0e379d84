import BlockSketch.Proofs.Program.Agenda
import BlockSketch.Proofs.Program.Refinement
import Mathlib.Data.List.Perm.Subperm

namespace BlockSketch.Program

/-- Two different walked references name the block. -/
def NamedTwice (c : Context) (roots : List String) (id : String) : Prop :=
  ∃ r r' place place', r ≠ r' ∧ Walked c roots r place id ∧ Walked c roots r' place' id

/-- A walked link leads from one block to another. -/
def LinksTo (c : Context) (roots : List String) (id n : String) : Prop :=
  ∃ r place b s, Walked c roots r place id ∧ c.workspace.get? id = some b ∧
    s ∈ c.follows place b ∧ b.linked? s = some n

/-- One or more walked links lead from one block to another. -/
def LeadsTo (c : Context) (roots : List String) : String → String → Prop :=
  Relation.TransGen (LinksTo c roots)

/-- From where the block `i` was entered, sockets that are followed lead to another block at a place. -/
def LeadsOnward (c : Context) (log : List Visit) (i : String) (place : Place) (id : String) : Prop :=
  ∃ v ∈ log, v.id = i ∧ Relation.TransGen c.Onward (v.place, i) (place, id)

/-- Something about a block of this id that is met and enabled. -/
def SomeVisit (c : Context) (roots : List String) (id : String) (p : Visit → Prop) : Prop :=
  ∃ v : Visit, v.Walked c roots ∧ v.block.enabled = true ∧ v.block.id = id ∧ p v

/-- What a fault says is so in the graph. -/
def Fault.Explained (c : Context) (roots : List String) : Fault → Prop
  | .missing id => (∃ r place, Walked c roots r place id) ∧ c.workspace.get? id = none
  | .cyclic id => LeadsTo c roots id id ∧ NamedTwice c roots id
  | .shared id => NamedTwice c roots id
  | .unknownType id typeId =>
    SomeVisit c roots id fun v => v.block.typeId = typeId ∧ c.catalogue.shape? typeId = none
  | .missingRule id typeId =>
    SomeVisit c roots id fun v => v.block.typeId = typeId ∧ c.rules.get? typeId = none ∧
      ∃ shape, c.catalogue.shape? typeId = some shape
  | .malformedField id field why =>
    SomeVisit c roots id fun v => ∃ shape rule, c.catalogue.shape? v.block.typeId = some shape ∧
      c.rules.get? v.block.typeId = some rule ∧ rule.fault? shape v.block = some (field, why)
  | .mismatch id _ =>
    SomeVisit c roots id fun v => ∃ shape, c.catalogue.shape? v.block.typeId = some shape ∧
      (shape.output ≠ v.place.output ∨ (v.place = .chain ∧ shape.isEntry = true) ∨
        ∃ rule, c.rules.get? v.block.typeId = some rule ∧ rule.output ≠ v.place.output)

/-- A log of the visits so far: they are the blocks entered, and each is through a walked reference, whose
own block was entered before. -/
structure Logs (c : Context) (roots visited : List String) (log : List Visit) : Prop where
  ids : visited = (log.map Visit.id).reverse
  nodup : visited.Nodup
  walked : ∀ v ∈ log, v.Walked c roots
  sources : ∀ v ∈ log, ∀ id s, v.reference = .link id s → id ∈ visited

/-- A walk may start at a reference which was not used before, `path` being the blocks that lead
there. A block that was left for good does not lead back to itself. -/
structure Starts (c : Context) (roots visited : List String) (log : List Visit)
    (path : List String) (r : Reference) (place : Place) (id : String) : Prop where
  logs : Logs c roots visited log
  agenda : ∃ rest, Agenda c roots log (⟨r, place, id⟩ :: rest)
  walked : Walked c roots r place id
  fresh : ∀ v ∈ log, v.reference ≠ r
  source : ∀ id s, r = .link id s → id ∈ visited
  entered : ∀ i ∈ path, i ∈ visited
  leads : ∀ i ∈ path, LeadsOnward c log i place id
  left : ∀ v ∈ log, v.id ∈ path ∨ ¬ c.Returns v.place v.id
  nodup : path.Nodup
  known : ∀ i ∈ path, i ∈ c.workspace.blocks.keys

/-- A walk is inside a block, and has some of its sockets still ahead. -/
structure Inside (c : Context) (roots visited : List String) (log : List Visit)
    (path : List String) (v : Visit) (ahead : List Socket) : Prop where
  logs : Logs c roots visited log
  agenda : ∃ rest, Agenda c roots log (stopsAt v.id v.block ahead ++ rest)
  mem : v ∈ log
  entered : ∀ i ∈ v.id :: path, i ∈ visited
  leads : ∀ i ∈ path, LeadsOnward c log i v.place v.id
  left : ∀ u ∈ log, u.id ∈ v.id :: path ∨ ¬ c.Returns u.place u.id
  nodup : (v.id :: path).Nodup
  known : ∀ i ∈ v.id :: path, i ∈ c.workspace.blocks.keys
  followed : ∀ s ∈ ahead, s ∈ c.follows v.place v.block
  distinct : ahead.Nodup
  fresh : ∀ u ∈ log, ∀ s ∈ ahead, u.reference ≠ .link v.id s

theorem Inside.walked {c : Context} {roots visited path : List String} {log : List Visit} {v : Visit}
    {ahead : List Socket} (h : Inside c roots visited log path v ahead) : v.Walked c roots :=
  h.logs.walked v h.mem

/-- A socket that is followed from a walked place is a walked link. -/
theorem Walked.onward {c : Context} {roots : List String} {r : Reference} {p q : Place × String}
    (h : Walked c roots r p.1 p.2) (hstep : c.Onward p q) :
    LinksTo c roots p.2 q.2 ∧ ∃ r', Walked c roots r' q.1 q.2 := by
  obtain ⟨b, s, hb, hs, hn, hp⟩ := hstep
  refine ⟨⟨r, p.1, b, s, h, hb, hs, hn⟩, .link p.2 s, ?_⟩
  rw [hp]
  exact .link h hb hs hn

theorem LeadsOnward.append {c : Context} {log : List Visit} {i id : String} {place : Place}
    (h : LeadsOnward c log i place id) (visits : List Visit) :
    LeadsOnward c (log ++ visits) i place id := by
  obtain ⟨v, hv, hid, hpath⟩ := h
  exact ⟨v, List.mem_append_left _ hv, hid, hpath⟩

/-- Sockets that are followed from a walked place lead on by walked links. -/
theorem leadsTo_of_onward {c : Context} {roots : List String} {r : Reference} {place place' : Place}
    {id n : String} (hw : Walked c roots r place id)
    (hpath : Relation.TransGen c.Onward (place, id) (place', n)) : LeadsTo c roots id n := by
  have hall : ∀ q, Relation.TransGen c.Onward (place, id) q →
      LeadsTo c roots id q.2 ∧ ∃ r', Walked c roots r' q.1 q.2 := by
    intro q hq
    induction hq with
    | single hstep =>
      obtain ⟨hlink, hwalked⟩ := Walked.onward hw hstep
      exact ⟨.single hlink, hwalked⟩
    | tail _ hstep ih =>
      obtain ⟨hlead, r', hw'⟩ := ih
      obtain ⟨hlink, hwalked⟩ := Walked.onward hw' hstep
      exact ⟨hlead.tail hlink, hwalked⟩
  exact (hall _ hpath).1

section Start

variable {c : Context} {roots : List String} {log : List Visit} {path : List String}
  {r : Reference} {place : Place} {id : String} {v : Visit} {ahead : List Socket} {t u : Trail}

/-- A path of different known blocks is not longer than the workspace. -/
theorem length_le_size (hn : path.Nodup) (hk : ∀ i ∈ path, i ∈ c.workspace.blocks.keys) :
    path.length ≤ c.workspace.size := by
  have hle := (List.subperm_of_subset hn hk).length_le
  simpa [Table.keys, Workspace.size, Table.size] using hle

theorem Logs.mem_visited {visited : List String} (h : Logs c roots visited log) {i : String} :
    i ∈ visited ↔ i ∈ log.map Visit.id := by
  rw [h.ids, List.mem_reverse]

theorem Logs.length_le {visited : List String} (h : Logs c roots visited log) :
    log.length ≤ c.depth := by
  have hknown : ∀ i ∈ visited, i ∈ c.workspace.blocks.keys := by
    intro i hi
    obtain ⟨v, hv, rfl⟩ := List.mem_map.mp (h.mem_visited.mp hi)
    exact Table.mem_keys_of_get? (h.walked v hv).block
  have hsize := length_le_size h.nodup hknown
  rw [h.ids, List.length_reverse, List.length_map] at hsize
  exact Nat.le_succ_of_le hsize

theorem Logs.nodup_append {visited : List String} (h : Logs c roots visited log) {ids : List String}
    (hn : ids.Nodup) (hfresh : ∀ i ∈ ids, i ∉ visited) : (log.map Visit.id ++ ids).Nodup := by
  have hlog : (log.map Visit.id).Nodup := by
    have hvisited := h.nodup
    rwa [h.ids, List.nodup_reverse] at hvisited
  refine List.nodup_append.mpr ⟨hlog, hn, ?_⟩
  rintro i hi j hj rfl
  exact hfresh i hj (h.mem_visited.mpr hi)

/-- Visits of new blocks that are through links of each other, or of blocks entered before, extend a log. -/
theorem Logs.extend {visited : List String} {visits : List Visit} (hl : Logs c roots visited log)
    (hn : (visits.map Visit.id).Nodup) (hfresh : ∀ i ∈ visits.map Visit.id, i ∉ visited)
    (hw : ∀ v ∈ visits, v.Walked c roots)
    (hs : ∀ v ∈ visits, ∀ i s, v.reference = .link i s → i ∈ visits.map Visit.id ∨ i ∈ visited) :
    Logs c roots ((visits.map Visit.id).reverse ++ visited) (log ++ visits) := by
  refine ⟨?_, ?_, ?_, ?_⟩
  · rw [List.map_append, List.reverse_append, ← hl.ids]
  · refine List.nodup_append.mpr ⟨List.nodup_reverse.mpr hn, hl.nodup, ?_⟩
    rintro i hi j hj rfl
    exact hfresh i (List.mem_reverse.mp hi) hj
  · intro v hv
    rcases List.mem_append.mp hv with hv | hv
    · exact hl.walked v hv
    · exact hw v hv
  · intro v hv i s he
    rw [List.mem_append, List.mem_reverse]
    rcases List.mem_append.mp hv with hv | hv
    · exact .inr (hl.sources v hv i s he)
    · exact hs v hv i s he

theorem Leaves.visited {ids : List String} {declarations : List (String × String)}
    (h : Leaves t u ids declarations) : u.visited = ids.reverse ++ t.visited := by
  rw [h.trail]
  rfl

theorem Leaves.visited_of_nil {declarations : List (String × String)}
    (h : Leaves t u [] declarations) : u.visited = t.visited := by
  simpa using h.visited

theorem Logs.found {tree : Tree} (hl : Logs c roots t.visited log) (hw : Walked c roots r place id)
    (hs : ∀ i s, r = .link i s → i ∈ t.visited) (hf : Found c place (some id) t u tree) :
    Logs c roots u.visited (log ++ tree.visits r place) := by
  have hids := Tree.map_id_visits r place tree
  rw [hf.leaves.visited, ← hids]
  refine hl.extend (hids ▸ hf.leaves.nodup) (hids ▸ hf.leaves.fresh)
    (hf.unfolds.walked fun i hi => by cases hi; exact hw) fun v hv i s he => ?_
  rw [hids]
  rcases hf.unfolds.reference v hv with hr | ⟨i', hi', s', hr⟩
  · exact .inr (hs i s (hr ▸ he))
  · rw [he, Reference.link.injEq] at hr
    exact .inl (hr.1 ▸ hi')

theorem nodup_follows (c : Context) (place : Place) (b : Block) : (c.follows place b).Nodup := by
  have hreads : (c.reads b).Nodup := by
    unfold Context.reads
    split_ifs
    · cases c.rules.get? b.typeId with
      | none => exact List.nodup_nil
      | some rule => exact rule.nodup_sockets b.mutation
    · exact List.nodup_nil
  have hnext := next_not_mem_reads c b
  unfold Context.follows
  split_ifs
  · simpa using hreads
  · rw [List.nodup_append]
    refine ⟨hreads, List.nodup_singleton _, ?_⟩
    rintro s hs s' hs' rfl
    rw [List.mem_singleton] at hs'
    exact hnext (hs' ▸ hs)

theorem Starts.enter {b : Block} (h : Starts c roots t.visited log path r place id)
    (hent : outcome (Program.enter c path id) t = (.ok b, u)) :
    Inside c roots u.visited (log ++ [⟨r, place, id, b⟩]) path ⟨r, place, id, b⟩
      (c.follows place b) := by
  obtain ⟨hp, hv, hb, rfl⟩ := enter_ok hent
  have hkey : id ∈ c.workspace.blocks.keys := Table.mem_keys_of_get? hb
  have hwalked : (⟨r, place, id, b⟩ : Visit).Walked c roots := ⟨h.walked, hb⟩
  refine ⟨?_, ?_, by simp, ?_, fun i hi => (h.leads i hi).append _, ?_,
    List.nodup_cons.mpr ⟨hp, h.nodup⟩, List.forall_mem_cons.mpr ⟨hkey, h.known⟩, fun s hs => hs,
    nodup_follows c place b, ?_⟩
  · have hone : ([⟨r, place, id, b⟩] : List Visit).map Visit.id = [id] := rfl
    refine h.logs.extend (hone ▸ List.nodup_singleton id) ?_ (List.forall_mem_singleton.mpr hwalked) ?_
    · exact List.forall_mem_singleton.mpr hv
    · exact List.forall_mem_singleton.mpr fun i s he => .inr (h.source i s he)
  · obtain ⟨rest, hagenda⟩ := h.agenda
    exact ⟨rest, hagenda.step (fun hmem => hv (h.logs.mem_visited.mpr hmem)) hb⟩
  · refine List.forall_mem_cons.mpr ⟨List.mem_cons_self, fun i hi => ?_⟩
    exact List.mem_cons_of_mem id (h.entered i hi)
  · intro u hu
    rcases List.mem_append.mp hu with hu | hu
    · exact (h.left u hu).imp_left (List.mem_cons_of_mem id)
    · rw [List.mem_singleton] at hu
      subst hu
      exact .inl List.mem_cons_self
  · -- No link of the block was used before it was entered.
    intro v hvl s _ he
    have hmem : id ∈ t.visited := by
      rcases List.mem_append.mp hvl with hvl | hvl
      · exact h.logs.sources v hvl id s he
      · rw [List.mem_singleton] at hvl
        subst hvl
        exact h.source id s he
    exact absurd hmem hv

theorem Inside.start {s : Socket} {n : String} {visited : List String}
    (h : Inside c roots visited log path v (s :: ahead)) (hn : v.block.linked? s = some n) :
    Starts c roots visited log (v.id :: path) (.link v.id s) (placeAt s) n := by
  have hs := h.followed s List.mem_cons_self
  have hstep : c.Onward (v.place, v.id) (placeAt s, n) := ⟨v.block, s, h.walked.block, hs, hn, rfl⟩
  refine ⟨h.logs, ?_, .link h.walked.reference h.walked.block hs hn, ?_, ?_, h.entered, ?_, h.left,
    h.nodup, h.known⟩
  · obtain ⟨rest, hagenda⟩ := h.agenda
    rw [stopsAt_cons, hn] at hagenda
    exact ⟨_, hagenda⟩
  · exact fun u hu => h.fresh u hu s List.mem_cons_self
  · intro i s' he
    cases he
    exact h.entered v.id List.mem_cons_self
  · intro i hi
    rcases List.mem_cons.mp hi with rfl | hi
    · exact ⟨v, h.mem, rfl, .single hstep⟩
    · obtain ⟨u, hu, hid, hpath⟩ := h.leads i hi
      exact ⟨u, hu, hid, hpath.tail hstep⟩

/-- After what stands at some sockets was read, the walk is still inside the block. -/
theorem Inside.foundInputs {sockets : List Socket} {inputs : Inputs}
    (h : Inside c roots t.visited log path v (sockets ++ ahead))
    (hs : ∀ s ∈ sockets, s ∈ c.reads v.block)
    (hf : FoundInputs c v.block sockets t u inputs) :
    Inside c roots u.visited (log ++ inputs.visits v.id) path v ahead := by
  have hid : v.id ∈ t.visited := h.entered v.id List.mem_cons_self
  have hids := Inputs.map_id_visits v.id inputs
  have hdistinct := List.nodup_append.mp h.distinct
  refine ⟨?_, ?_, List.mem_append_left _ h.mem, ?_, fun i hi => (h.leads i hi).append _, ?_, h.nodup,
    h.known, fun s hs => h.followed s (List.mem_append_right _ hs), hdistinct.2.1, ?_⟩
  · rw [hf.leaves.visited, ← hids]
    refine h.logs.extend (hids ▸ hf.leaves.nodup) (hids ▸ hf.leaves.fresh)
      (hf.unfold.walked h.walked.reference h.walked.block hs) fun w hw i s he => ?_
    rw [hids]
    rcases hf.unfold.reference w hw with ⟨s', -, hr⟩ | ⟨i', hi', s', hr⟩
    · rw [he, Reference.link.injEq] at hr
      exact .inr (hr.1 ▸ hid)
    · rw [he, Reference.link.injEq] at hr
      exact .inl (hr.1 ▸ hi')
  · obtain ⟨rest, hagenda⟩ := h.agenda
    rw [stopsAt_append, List.append_assoc] at hagenda
    exact ⟨rest, .inputs hf.unfold (h.logs.nodup_append hf.leaves.nodup hf.leaves.fresh) hagenda⟩
  · intro i hi
    rw [hf.leaves.visited]
    exact List.mem_append_right _ (h.entered i hi)
  · intro w hw
    rcases List.mem_append.mp hw with hw | hw
    · exact h.left w hw
    · exact .inr (hf.unfold.not_returns h.walked.reference h.walked.block hs hf.leaves.nodup w hw)
  · intro w hw s hsa he
    rcases List.mem_append.mp hw with hw | hw
    · exact h.fresh w hw s (List.mem_append_right _ hsa) he
    · rcases hf.unfold.reference w hw with ⟨s', hs', hr⟩ | ⟨i, hi, s', hr⟩
      · rw [he, Reference.link.injEq] at hr
        exact hdistinct.2.2 s' hs' s hsa hr.2.symm
      · rw [he, Reference.link.injEq] at hr
        exact hf.leaves.fresh _ (hr.1 ▸ hi) hid

/-- After a block of a chain was read, the walk may go on behind it. -/
theorem Inside.next {inputs : Inputs} {n : String} {w : Trail}
    {declarations : List (String × String)}
    (h : Inside c roots t.visited log path v (c.follows v.place v.block))
    (hown : Leaves t u [] declarations) (hf : FoundInputs c v.block (c.reads v.block) u w inputs)
    (hp : v.place ≠ .operand) (hn : v.block.next = some n) :
    Starts c roots w.visited (log ++ inputs.visits v.id) (v.id :: path) (.link v.id .next) .chain
      n := by
  rw [← hown.visited_of_nil, Context.follows, if_neg hp] at h
  exact (h.foundInputs (fun s hs => hs) hf).start hn

end Start

/-- A block is named again after it was entered, by another walked reference. The blocks entered so
far are those of the agenda, in its order. -/
structure NamedAgain (c : Context) (roots entered : List String) (id : String) (v : Visit)
    (stop : Stop) : Prop where
  order : entered = (c.met roots).1.map Visit.id
  entrance : c.entrance? roots id = some v
  visit : v.Walked c roots
  pending : (c.met roots).2.head? = some stop
  named : stop.id = id
  walked : Walked c roots stop.reference stop.place id
  other : v.reference ≠ stop.reference

/-- Links lead back to a block from where it was entered. -/
def LeadsBack (c : Context) (roots entered : List String) (id : String) : Prop :=
  ∃ v stop, NamedAgain c roots entered id v stop ∧ c.Returns v.place id

/-- No link leads back to a block from where it was entered, and yet it is named again. -/
def LeftBehind (c : Context) (roots entered : List String) (id : String) : Prop :=
  ∃ v stop, NamedAgain c roots entered id v stop ∧ ¬ c.Returns v.place id

/-- What a walk that ends early says is so, `t` being its trail at the end. -/
def Halt.Explained (c : Context) (roots : List String) (t : Trail) : Halt → Prop
  | .fault (.cyclic id) => LeadsBack c roots t.visited.reverse id
  | .fault (.shared id) => LeftBehind c roots t.visited.reverse id
  | .fault f => f.Explained c roots
  | .tooDeep _ => False

/-- A walk that ends early has an explained fault, wherever it may start at the end of a path. -/
def FailsExplained {α : Type} (c : Context) (roots path : List String) (place : Place)
    (walk : String → Walk α) : Prop :=
  ∀ r id t log e t', Starts c roots t.visited log path r place id →
    outcome (walk id) t = (.error e, t') → e.Explained c roots t'

/-- How operands and chains are walked in the slots of a block, `path` being the blocks that lead there. -/
structure WalksBelow (c : Context) (roots path : List String)
    (expression : String → Walk (Option (String × Order))) (chain : String → Walk String) : Prop where
  operandFails : FailsExplained c roots path .operand expression
  chainFails : FailsExplained c roots path .chain chain
  operands : ReadsOperands c expression
  chains : ReadsChains c .chain chain

section Error

variable {c : Context} {roots : List String} {log : List Visit} {path : List String}
  {r : Reference} {place : Place} {id : String} {v : Visit} {ahead : List Socket} {t t' : Trail}
  {e : Halt}

theorem Starts.namedAgain (h : Starts c roots t.visited log path r place id) (hv : v ∈ log)
    (hid : v.id = id) : NamedAgain c roots t.visited.reverse id v ⟨r, place, id⟩ := by
  obtain ⟨rest, hagenda⟩ := h.agenda
  have hagain : id ∈ log.map Visit.id := List.mem_map.mpr ⟨v, hv, hid⟩
  have hmet : c.met roots = (log, ⟨r, place, id⟩ :: rest) := hagenda.met_eq hagain h.logs.length_le
  have hnodup : (log.map Visit.id).Nodup := by simpa using h.logs.nodup_append List.nodup_nil (by simp)
  refine ⟨by rw [hmet, h.logs.ids, List.reverse_reverse], ?_, h.logs.walked v hv, by rw [hmet]; rfl, rfl,
    h.walked, h.fresh v hv⟩
  rw [Context.entrance?, hmet]
  cases hfind : log.find? fun u => u.id = id with
  | none => exact absurd hid (by simpa using List.find?_eq_none.mp hfind v hv)
  | some u =>
    have huid : u.id = id := by simpa using List.find?_some hfind
    have heq := List.inj_on_of_nodup_map hnodup (List.mem_of_find?_eq_some hfind) hv (huid.trans hid.symm)
    rw [heq]

theorem enter_explained (h : Starts c roots t.visited log path r place id)
    (he : outcome (enter c path id) t = (.error e, t')) : e.Explained c roots t' := by
  rcases enter_error he with ⟨rfl, rfl, hp⟩ | ⟨rfl, rfl, hp, hv⟩ | ⟨rfl, hb⟩
  · obtain ⟨v, hv, hid, hback⟩ := h.leads id hp
    exact ⟨v, _, h.namedAgain hv hid, place, hback⟩
  · obtain ⟨v, hvl, rfl⟩ := List.mem_map.mp (h.logs.mem_visited.mp hv)
    exact ⟨v, _, h.namedAgain hvl rfl, (h.left v hvl).resolve_left hp⟩
  · exact ⟨⟨r, place, h.walked⟩, hb⟩

section Reading

variable {expression : String → Walk (Option (String × Order))} {chain : String → Walk String}
  {shape : Shape} {outer : Order}

theorem readSocket_explained (hbelow : WalksBelow c roots (v.id :: path) expression chain) {s : Socket}
    (h : Inside c roots t.visited log path v (s :: ahead))
    (herr : outcome (readSocket (operandText shape v.block expression) (bodyText v.block chain)
      outer s) t = (.error e, t')) : e.Explained c roots t' := by
  cases s with
  | next => simp [readSocket] at herr
  | value slot =>
    simp only [readSocket, operandText] at herr
    cases hl : v.block.values.get? slot with
    | none => simp [hl] at herr
    | some n =>
      simp only [hl] at herr
      rcases error_of_outcome_bind herr with herr | ⟨written, u, -, herr⟩
      · exact hbelow.operandFails _ _ _ _ _ _ (h.start hl) herr
      · cases written <;> simp at herr
  | statement slot =>
    simp only [readSocket, bodyText] at herr
    cases hl : v.block.statements.get? slot with
    | none => simp [hl] at herr
    | some n =>
      simp only [hl] at herr
      rcases error_of_outcome_bind herr with herr | ⟨code, u, -, herr⟩
      · exact hbelow.chainFails _ _ _ _ _ _ (h.start hl) herr
      · simp at herr

theorem readSockets_explained (hbelow : WalksBelow c roots (v.id :: path) expression chain)
    {absent : Socket → String} {sockets : List Socket}
    (hnext : .next ∉ sockets) (hs : ∀ s ∈ sockets, s ∈ c.reads v.block)
    (h : Inside c roots t.visited log path v (sockets ++ ahead))
    (herr : outcome (readSockets (readSocket (operandText shape v.block expression)
      (bodyText v.block chain) outer) absent sockets) t = (.error e, t')) :
    e.Explained c roots t' := by
  induction sockets generalizing t log with
  | nil => simp [readSockets] at herr
  | cons s rest ih =>
    rcases error_of_outcome_bind herr with herr | ⟨code, u, hok, herr⟩
    · exact readSocket_explained hbelow h herr
    · have hne : s ≠ .next := fun hn => hnext (hn ▸ List.mem_cons_self)
      obtain ⟨tree, hf, -⟩ := readSocket_ok hbelow.operands hbelow.chains hne hok
      have hfirst : Inside c roots t.visited log path v ([s] ++ (rest ++ ahead)) := h
      have hin := hfirst.foundInputs (List.forall_mem_singleton.mpr (hs s List.mem_cons_self))
        (.cons hf (.nil c v.block u))
      rcases error_of_outcome_bind herr with herr | ⟨others, w, -, herr⟩
      · exact ih (fun hm => hnext (List.mem_cons_of_mem s hm))
          (fun s' hs' => hs s' (List.mem_cons_of_mem s hs')) hin herr
      · simp at herr

theorem applyRule_explained (hbelow : WalksBelow c roots (v.id :: path) expression chain)
    (h : Inside c roots t.visited log path v (c.follows v.place v.block))
    (hb : v.block.enabled = true) (hs : c.catalogue.shape? v.block.typeId = some shape)
    (herr : outcome (applyRule c expression chain shape v.block) t = (.error e, t')) :
    e.Explained c roots t' := by
  unfold applyRule at herr
  cases hr : c.rules.get? v.block.typeId with
  | none =>
    simp only [hr] at herr
    obtain rfl := error_of_outcome_fail herr
    exact ⟨v, h.walked, hb, rfl, rfl, hr, shape, hs⟩
  | some rule =>
    simp only [hr, run_plan shape v.block (operandText shape v.block expression)
      (bodyText v.block chain) (fun _ => "") rule] at herr
    cases hf : rule.fault? shape v.block with
    | some fault =>
      simp only [hf] at herr
      obtain rfl := error_of_outcome_fail herr
      exact ⟨v, h.walked, hb, rfl, shape, rule, hs, hr, hf⟩
    | none =>
      simp only [hf, Rule.fill] at herr
      rw [outcome_bind_of_ok (outcome_hoist _ t)] at herr
      have hreads : c.reads v.block = rule.sockets v.block.mutation := by
        simp [Context.reads, hb, hr]
      -- Hoisting enters no block.
      have hin : Inside c roots (t.extend [] (rule.hoisted (fieldOf shape v.block))).visited log
        path v (c.follows v.place v.block) := h
      rw [Context.follows, hreads] at hin
      rcases error_of_outcome_bind herr with herr | ⟨text, u, -, herr⟩
      · refine readSockets_explained hbelow (rule.next_not_mem_sockets _) (fun s hs => ?_) hin herr
        exact hreads ▸ hs
      · simp at herr

/-- A block that was written as something else than its place asks for. -/
theorem written_explained (hbelow : WalksBelow c roots (v.id :: path) expression chain)
    (hv : v.Walked c roots) (hb : v.block.enabled = true)
    (hs : c.catalogue.shape? v.block.typeId = some shape) {written : Rendered}
    (hok : outcome (applyRule c expression chain shape v.block) t = (.ok written, t'))
    (hne : written.output ≠ v.place.output) (expected : Expected) :
    (Fault.mismatch v.block.id expected).Explained c roots := by
  obtain ⟨-, -, -, -, -, rule, hr, ho, -⟩ := applyRule_ok hbelow.operands hbelow.chains hb hs hok
  exact ⟨v, hv, hb, rfl, shape, hs, .inr (.inr ⟨rule, hr, ho ▸ hne⟩)⟩

theorem stepText_explained (hbelow : WalksBelow c roots (v.id :: path) expression chain)
    (h : Inside c roots t.visited log path v (c.follows v.place v.block))
    {mayBeEntry : Bool} (hp : v.place = if mayBeEntry then .top else .chain)
    (herr : outcome (stepText c (applyRule c expression chain) mayBeEntry v.block) t =
      (.error e, t')) : e.Explained c roots t' := by
  have hout : v.place.output = .statement := by rw [hp]; cases mayBeEntry <;> rfl
  unfold stepText at herr
  split_ifs at herr with hb
  · rcases error_of_shapeOf_bind herr with ⟨rfl, hs⟩ | ⟨shape, hs, herr⟩
    · exact ⟨v, h.walked, hb, rfl, rfl, hs⟩
    · split_ifs at herr with hst hen
      · obtain rfl := error_of_outcome_fail herr
        refine ⟨v, h.walked, hb, rfl, shape, hs, .inl ?_⟩
        rw [hout]
        intro ho
        simp [Shape.isStatement, ho] at hst
      · obtain rfl := error_of_outcome_fail herr
        refine ⟨v, h.walked, hb, rfl, shape, hs, .inr (.inl ?_)⟩
        cases mayBeEntry with
        | true => simp at hen
        | false => exact ⟨hp, by simpa [Shape.isChainable, hst] using hen⟩
      · rcases error_of_outcome_bind herr with herr | ⟨written, u, hok, herr⟩
        · exact applyRule_explained hbelow h hb hs herr
        · cases written with
          | statement code => simp at herr
          | value code order =>
            obtain rfl := error_of_outcome_fail herr
            exact written_explained hbelow h.walked hb hs hok (by simp [hout, Rendered.output]) .statement
  · simp at herr

theorem valueText_explained (hbelow : WalksBelow c roots (v.id :: path) expression chain)
    (h : Inside c roots t.visited log path v (c.follows v.place v.block))
    (hp : v.place = .operand)
    (herr : outcome (valueText c (applyRule c expression chain) v.block) t = (.error e, t')) :
    e.Explained c roots t' := by
  have hout : v.place.output = .value := by rw [hp]; rfl
  unfold valueText at herr
  split_ifs at herr with hb
  · rcases error_of_shapeOf_bind herr with ⟨rfl, hs⟩ | ⟨shape, hs, herr⟩
    · exact ⟨v, h.walked, hb, rfl, rfl, hs⟩
    · split_ifs at herr with hst
      · obtain rfl := error_of_outcome_fail herr
        refine ⟨v, h.walked, hb, rfl, shape, hs, .inl ?_⟩
        rw [hout]
        intro ho
        simp [Shape.isValue, ho] at hst
      · rcases error_of_outcome_bind herr with herr | ⟨written, u, hok, herr⟩
        · exact applyRule_explained hbelow h hb hs herr
        · cases written with
          | value code order => simp at herr
          | statement code =>
            obtain rfl := error_of_outcome_fail herr
            exact written_explained hbelow h.walked hb hs hok (by simp [hout, Rendered.output]) .value
  · simp at herr

end Reading

end Error

/-- A chain, `n` being the most blocks that it may still have. -/
theorem follow_explained {c : Context} {roots : List String}
    {expression : List String → String → Walk (Option (String × Order))}
    {chain : List String → String → Walk String} {depth : Nat}
    (hbelow : ∀ path, c.workspace.size < depth + path.length →
      WalksBelow c roots path (expression path) (chain path)) (n : Nat) {path : List String}
    (hdepth : c.workspace.size < depth + 1 + path.length) (hn : c.workspace.size < n + path.length)
    (mayBeEntry : Bool) :
    FailsExplained c roots path (if mayBeEntry then .top else .chain)
      (follow c (fun path => applyRule c (expression path) (chain path)) n path mayBeEntry) := by
  induction n generalizing path mayBeEntry with
  | zero =>
    -- The path would be longer than the workspace, and its blocks are all different.
    intro r id t log e t' h herr
    have hle := length_le_size h.nodup h.known
    omega
  | succ n ih =>
    intro r id t log e t' h herr
    have hd : c.workspace.size < depth + (id :: path).length := by simp only [List.length_cons]; omega
    rcases error_of_outcome_bind herr with herr | ⟨b, u, hent, herr⟩
    · exact enter_explained h herr
    · have hin := h.enter hent
      rcases error_of_outcome_bind herr with herr | ⟨code, w, hstep, herr⟩
      · exact stepText_explained (hbelow _ hd) hin rfl herr
      · cases hnext : b.next with
        | none => simp [hnext] at herr
        | some next =>
          simp only [hnext] at herr
          rcases error_of_outcome_bind herr with herr | ⟨rest, x, -, herr⟩
          · obtain ⟨inputs, x, hx, hi, -, -⟩ :=
              stepText_ok (hbelow _ hd).operands (hbelow _ hd).chains hstep
            have hp : (if mayBeEntry then Place.top else .chain) ≠ .operand := by
              cases mayBeEntry <;> decide
            exact ih (by simp only [List.length_cons]; omega) (by simp only [List.length_cons]; omega)
              false _ _ _ _ _ _ (hin.next hx hi hp hnext) herr
          · simp at herr

/-- Operands and chains, at every depth that is not used up before the blocks are. -/
theorem walk_explained (c : Context) (roots : List String) (depth : Nat) :
    (∀ path, c.workspace.size < depth + path.length →
      FailsExplained c roots path .operand (expression c depth path)) ∧
      ∀ path, c.workspace.size < depth + path.length → ∀ mayBeEntry,
        FailsExplained c roots path (if mayBeEntry then .top else .chain)
          (chain c depth path mayBeEntry) := by
  induction depth with
  | zero =>
    constructor
    · intro path hd r id t log e t' h herr
      have hle := length_le_size h.nodup h.known
      omega
    · intro path hd mayBeEntry r id t log e t' h herr
      have hle := length_le_size h.nodup h.known
      omega
  | succ depth ih =>
    obtain ⟨he, hc⟩ := ih
    obtain ⟨hre, hrc⟩ := walk_ok c depth
    have hbelow (path : List String) (hd : c.workspace.size < depth + path.length) :
        WalksBelow c roots path (expression c depth path) (chain c depth path false) :=
      ⟨he path hd, by simpa using hc path hd false, hre path, by simpa using hrc path false⟩
    constructor
    · intro path hd r id t log e t' h herr
      have hd' : c.workspace.size < depth + (id :: path).length := by
        simp only [List.length_cons]
        omega
      rw [expression] at herr
      rcases error_of_outcome_bind herr with herr | ⟨b, u, hent, herr⟩
      · exact enter_explained h herr
      · exact valueText_explained (hbelow _ hd') (h.enter hent) rfl herr
    · intro path hd mayBeEntry r id t log e t' h herr
      rw [chain] at herr
      exact follow_explained hbelow _ (by omega) (by omega) mayBeEntry _ _ _ _ _ _ h herr

section Root

variable {c : Context} {roots : List String} {log : List Visit} {t t' : Trail} {e : Halt}

theorem root_explained {depth i : Nat} {id : String} (hd : c.workspace.size < depth)
    (h : Starts c roots t.visited log [] (.root i) (c.rootPlace id) id)
    (herr : outcome (root c depth id) t = (.error e, t')) : e.Explained c roots t' := by
  obtain ⟨he, hc⟩ := walk_explained c roots depth
  have hdepth : c.workspace.size < depth + ([] : List String).length := hd
  rcases root_cases c depth id with ⟨hb, hr⟩ | ⟨b, hb, hen, hs, hr⟩ | ⟨hp, hr⟩ | ⟨hp, hr⟩
  · rw [hr] at herr
    obtain rfl := error_of_outcome_fail herr
    exact ⟨⟨_, _, h.walked⟩, hb⟩
  · rw [hr] at herr
    obtain rfl := error_of_outcome_fail herr
    exact ⟨⟨_, _, id, b⟩, ⟨h.walked, hb⟩, hen, rfl, rfl, hs⟩
  · rw [hr] at herr
    rw [hp] at h
    rcases error_of_outcome_bind herr with herr | ⟨r, u, -, herr⟩
    · exact he [] hdepth _ _ _ _ _ _ h herr
    · simp at herr
  · rw [hr] at herr
    rw [hp] at h
    exact hc [] hdepth true _ _ _ _ _ _ h herr

/-- The roots from the entry `i` of the list on, of which none was walked before. -/
theorem rootTexts_explained {depth : Nat} (hd : c.workspace.size < depth) {rest : List String}
    (i : Nat) (hroots : ∀ (j : Nat) id, rest[j]? = some id → roots[i + j]? = some id)
    (hlogs : Logs c roots t.visited log) (hagenda : Agenda c roots log (rootStops c i rest))
    (hleft : ∀ v ∈ log, ¬ c.Returns v.place v.id)
    (hfresh : ∀ v ∈ log, ∀ j, i ≤ j → v.reference ≠ .root j)
    (herr : outcome (rootTexts c depth rest) t = (.error e, t')) : e.Explained c roots t' := by
  induction rest generalizing i log t with
  | nil => simp [rootTexts] at herr
  | cons id rest ih =>
    have hw : Walked c roots (.root i) (c.rootPlace id) id := .root (hroots 0 id rfl)
    have hstart : Starts c roots t.visited log [] (.root i) (c.rootPlace id) id :=
      ⟨hlogs, ⟨_, hagenda⟩, hw, fun v hv => hfresh v hv i (Nat.le_refl i), by simp, by simp, by simp,
        fun v hv => .inr (hleft v hv), by simp, by simp⟩
    rcases error_of_outcome_bind herr with herr | ⟨code, u, hok, herr⟩
    · exact root_explained hd hstart herr
    · obtain ⟨tree, hf, -⟩ := root_ok hok
      rcases error_of_outcome_bind herr with herr | ⟨others, w, -, herr⟩
      · have hnew := hlogs.nodup_append hf.leaves.nodup hf.leaves.fresh
        have hagenda' := Agenda.tree (r := .root i) hf.unfolds hnew hagenda
        refine ih (i + 1) (fun j id' hj => ?_) (hlogs.found hw (by simp) hf) hagenda' ?_ ?_ herr
        · rw [show i + 1 + j = i + (j + 1) by omega]
          exact hroots (j + 1) id' hj
        · intro v hv
          rcases List.mem_append.mp hv with hv | hv
          · exact hleft v hv
          · have hwalked : ∀ n, some id = some n →
                Walked c roots (.root i) (c.rootPlace id) n := by
              intro n hn
              cases hn
              exact hw
            exact hf.unfolds.not_returns hwalked hf.leaves.nodup v hv
        · intro v hv j hj
          rcases List.mem_append.mp hv with hv | hv
          · exact hfresh v hv j (by omega)
          · rcases hf.unfolds.reference v hv with hr | ⟨id', -, s, hr⟩
            · rw [hr, Ne, Reference.root.injEq]
              omega
            · simp [hr]
      · simp at herr

/-- The blocks that a pass enters, in the order of the walk. -/
def entered (c : Context) (roots : List String) : List String :=
  (pass c c.depth roots).2.visited.reverse

theorem generate_halt {f : Fault} (h : generate c roots = .error f) :
    (Halt.fault f).Explained c roots (pass c c.depth roots).2 := by
  have hlogs : Logs c roots ({} : Trail).visited [] := ⟨rfl, List.nodup_nil, by simp, by simp⟩
  have hd : c.workspace.size < c.depth := Nat.lt_succ_self _
  rw [generate, pass_eq_outcome] at h
  rw [pass_eq_outcome]
  rcases ho : outcome (rootTexts c c.depth roots) {} with ⟨e | texts, t⟩
  · have he := rootTexts_explained hd 0 (by simp) hlogs (.start c roots) (by simp) (by simp) ho
    cases e with
    | fault f' =>
      simp only [ho, Except.error.injEq] at h
      subst h
      exact he
    | tooDeep id => exact False.elim he
  · simp [ho] at h

theorem NamedAgain.namedTwice {ids : List String} {id : String} {v : Visit} {stop : Stop}
    (h : NamedAgain c roots ids id v stop) : NamedTwice c roots id := by
  have hid : v.id = id := by simpa using List.find?_some h.entrance
  exact ⟨v.reference, stop.reference, v.place, stop.place, h.other, hid ▸ h.visit.reference, h.walked⟩

theorem NamedAgain.leadsTo {ids : List String} {id : String} {v : Visit} {stop : Stop}
    (h : NamedAgain c roots ids id v stop) (hback : c.Returns v.place id) :
    LeadsTo c roots id id := by
  have hid : v.id = id := by simpa using List.find?_some h.entrance
  obtain ⟨place, hpath⟩ := hback
  exact leadsTo_of_onward (hid ▸ h.visit.reference) hpath

theorem generate_explained {f : Fault} (h : generate c roots = .error f) : f.Explained c roots := by
  have he := generate_halt h
  cases f with
  | cyclic id =>
    obtain ⟨v, stop, hagain, hback⟩ := he
    exact ⟨hagain.leadsTo hback, hagain.namedTwice⟩
  | shared id =>
    obtain ⟨v, stop, hagain, -⟩ := he
    exact hagain.namedTwice
  | _ => exact he

end Root

end BlockSketch.Program
