import BlockSketch.Proofs.Program.Reference

namespace BlockSketch.Program

/-- A reference that a walk has still to follow. -/
structure Stop where
  reference : Reference
  place : Place
  id : String
  deriving DecidableEq, Repr

/-- The links at some sockets of the block `id`, in order. -/
def stopsAt (id : String) (b : Block) (sockets : List Socket) : List Stop :=
  sockets.filterMap fun s => (b.linked? s).map fun n => ⟨.link id s, placeAt s, n⟩

/-- The roots from the entry `i` of their list on. -/
def rootStops (c : Context) : Nat → List String → List Stop
  | _, [] => []
  | i, id :: rest => ⟨.root i, c.rootPlace id, id⟩ :: rootStops c (i + 1) rest

/-- Enters at most `n` blocks, the first pending one each time, and puts what is followed from it in front of
the others. It stops before a block that was entered already, or that is not there. -/
def Context.meet (c : Context) : Nat → List Visit → List Stop → List Visit × List Stop
  | 0, log, stops => (log, stops)
  | _ + 1, log, [] => (log, [])
  | n + 1, log, stop :: rest =>
    if stop.id ∈ log.map Visit.id then (log, stop :: rest)
    else
      match c.workspace.get? stop.id with
      | none => (log, stop :: rest)
      | some b =>
        c.meet n (log ++ [⟨stop.reference, stop.place, stop.id, b⟩])
          (stopsAt stop.id b (c.follows stop.place b) ++ rest)

/-- The visits of a pass, in order, and what it has still to follow when it meets a block again. -/
def Context.met (c : Context) (roots : List String) : List Visit × List Stop :=
  c.meet c.depth [] (rootStops c 0 roots)

def Context.entrance? (c : Context) (roots : List String) (id : String) : Option Visit :=
  (c.met roots).1.find? fun v => v.id = id

/-- After these visits a pass has these stops before it. -/
def Agenda (c : Context) (roots : List String) (log : List Visit) (stops : List Stop) : Prop :=
  ∀ n, c.meet (n + log.length) [] (rootStops c 0 roots) = c.meet n log stops

section

variable {c : Context} {roots : List String} {log : List Visit} {stop : Stop} {rest : List Stop}

theorem stopsAt_append (id : String) (b : Block) (sockets others : List Socket) :
    stopsAt id b (sockets ++ others) = stopsAt id b sockets ++ stopsAt id b others :=
  List.filterMap_append

theorem stopsAt_cons (id : String) (b : Block) (s : Socket) (others : List Socket) :
    stopsAt id b (s :: others) =
      (b.linked? s).toList.map (Stop.mk (.link id s) (placeAt s)) ++ stopsAt id b others := by
  cases hs : b.linked? s <;> simp [stopsAt, hs]

/-- Behind what is read of a block comes the block that follows it, except behind an operand. -/
theorem stopsAt_follows (id : String) (b : Block) (place : Place) :
    stopsAt id b (c.follows place b) = stopsAt id b (c.reads b) ++
      (place.next? b).toList.map (Stop.mk (.link id .next) .chain) := by
  rw [Context.follows, stopsAt_append]
  by_cases hp : place = .operand
  · simp [Place.next?, hp, stopsAt]
  · rw [if_neg hp, stopsAt_cons, Place.next?, if_neg hp]
    simp [stopsAt, placeAt, Block.linked?]

theorem Agenda.start (c : Context) (roots : List String) : Agenda c roots [] (rootStops c 0 roots) :=
  fun _ => rfl

theorem Agenda.step {b : Block} (h : Agenda c roots log (stop :: rest))
    (hnew : stop.id ∉ log.map Visit.id) (hb : c.workspace.get? stop.id = some b) :
    Agenda c roots (log ++ [⟨stop.reference, stop.place, stop.id, b⟩])
      (stopsAt stop.id b (c.follows stop.place b) ++ rest) := by
  intro n
  have hone : n + (log ++ [Visit.mk stop.reference stop.place stop.id b]).length =
      n + 1 + log.length := by
    rw [List.length_append, List.length_singleton]
    omega
  rw [hone, h (n + 1), Context.meet, if_neg hnew, hb]

/-- A pass ends where it would enter a block for the second time. -/
theorem Agenda.met_eq (h : Agenda c roots log (stop :: rest)) (hagain : stop.id ∈ log.map Visit.id)
    (hle : log.length ≤ c.depth) : c.met roots = (log, stop :: rest) := by
  obtain ⟨n, hn⟩ := Nat.exists_eq_add_of_le' hle
  rw [Context.met, hn, h n]
  cases n with
  | zero => rfl
  | succ n => rw [Context.meet, if_pos hagain]

mutual

/-- A tree of new blocks is met from its first block on, and then what was pending behind it. -/
theorem Agenda.tree {r : Reference} {place : Place} {at? : Option String} :
    ∀ {t : Tree} {log : List Visit} {rest : List Stop}, t.Unfolds c place at? →
      (log.map Visit.id ++ t.ids).Nodup →
        Agenda c roots log (at?.toList.map (Stop.mk r place) ++ rest) →
          Agenda c roots (log ++ t.visits r place) rest
  | .leaf, log, rest, h, _, hagenda => by
    have hnone : at? = none := h
    subst hnone
    simpa [Tree.visits] using hagenda
  | .node id b inputs next, log, rest, h, hnodup, hagenda => by
    obtain ⟨rfl, hb, hinputs, hnext⟩ := h
    have hnew : id ∉ log.map Visit.id := by
      intro hmem
      exact (List.nodup_append.mp hnodup).2.2 id hmem id (by simp [Tree.ids]) rfl
    have hsteps : Agenda c roots (log ++ [⟨r, place, id, b⟩])
        (stopsAt id b (c.follows place b) ++ rest) :=
      Agenda.step hagenda hnew hb
    rw [stopsAt_follows, List.append_assoc] at hsteps
    have hids : ((log ++ [Visit.mk r place id b]).map Visit.id ++
        (inputs.ids ++ next.ids)).Nodup := by
      simpa [Tree.ids] using hnodup
    rw [← List.append_assoc] at hids
    have hbelow := Agenda.inputs hinputs (List.nodup_append.mp hids).1 hsteps
    have hbehind : ((log ++ [Visit.mk r place id b] ++ inputs.visits id).map Visit.id ++
        next.ids).Nodup := by
      rwa [List.map_append, Inputs.map_id_visits]
    have hall := Agenda.tree hnext hbehind hbelow
    simpa [Tree.visits] using hall

theorem Agenda.inputs {id : String} {b : Block} {sockets : List Socket} :
    ∀ {inputs : Inputs} {log : List Visit} {rest : List Stop}, inputs.Unfold c b sockets →
      (log.map Visit.id ++ inputs.ids).Nodup → Agenda c roots log (stopsAt id b sockets ++ rest) →
        Agenda c roots (log ++ inputs.visits id) rest
  | .nil, log, rest, h, _, hagenda => by
    have hnil : sockets = [] := h
    subst hnil
    simpa [Inputs.visits, stopsAt] using hagenda
  | .cons s t others, log, rest, h, hnodup, hagenda => by
    obtain ⟨sockets', rfl, ht, ho⟩ := h
    rw [Inputs.ids, ← List.append_assoc] at hnodup
    rw [stopsAt_cons, List.append_assoc] at hagenda
    have hfirst := Agenda.tree ht (List.nodup_append.mp hnodup).1 hagenda
    have hothers : ((log ++ t.visits (.link id s) (placeAt s)).map Visit.id ++ others.ids).Nodup := by
      rwa [List.map_append, Tree.map_id_visits]
    have hall := Agenda.inputs ho hothers hfirst
    rwa [List.append_assoc] at hall

end

end

end BlockSketch.Program
