import BlockSketch.Document.Load
import BlockSketch.Proofs.Workspace.Links

namespace BlockSketch.Document

/-- A block stands at a site: a known type lets it stand there. -/
def StandsAt (c : Catalogue) (site : Site) (b : Block) : Prop :=
  ∀ shape, c.shape? b.typeId = some shape → misplacement? shape site = none

/-- A shape has a socket for its blocks, given their branches. -/
def offers (shape : Shape) (m : Mutation) : Socket → Bool
  | .next => shape.isChainable
  | .statement slot => shape.acceptsStatement slot m
  | .value slot => shape.acceptsValue slot m

/-- A block has a socket: a known type offers it. -/
def HasSocket (c : Catalogue) (b : Block) (s : Socket) : Prop :=
  ∀ shape, c.shape? b.typeId = some shape → offers shape b.mutation s = true

/-- The links of a block are at sockets that it has, and lead to some of the blocks, which stand
there. -/
def LinksInto (c : Catalogue) (b : Block) (blocks : List Block) : Prop :=
  ∀ s n, b.linked? s = some n →
    HasSocket c b s ∧ ∃ child ∈ blocks, child.id = n ∧ StandsAt c (siteAt b.id s) child

/-- Links of the blocks lead from one of the heads to a block. -/
inductive Below (blocks : List Block) (heads : List String) : String → Prop where
  | head {i : String} (h : i ∈ heads) : Below blocks heads i
  | link {b : Block} {n : String} (h : Below blocks heads b.id) (hb : b ∈ blocks)
    (hn : n ∈ b.children) : Below blocks heads n

/-- What was placed between two states of loading, `heads` being the blocks that none of the others
links to. -/
structure Placed (c : Catalogue) (p p' : Progress) (blocks : List Block) (heads : List String) :
    Prop where
  nodup : (blocks.map Block.id).Nodup
  fresh : ∀ b ∈ blocks, b.id ∉ p.taken
  taken : ∀ i, i ∈ p'.taken ↔ i ∈ blocks.map Block.id ∨ i ∈ p.taken
  linked : (heads ++ blocks.flatMap Block.children).Perm (blocks.map Block.id)
  stands : ∀ b ∈ blocks, LinksInto c b blocks
  below : ∀ b ∈ blocks, Below blocks heads b.id

/-- What plugging some of the placed blocks into a block has made of it. -/
structure Filled (c : Catalogue) (b block : Block) (placed : List Block) (heads : List String) :
    Prop where
  same : block = { b with
    statements := block.statements, values := block.values, next := block.next }
  children : block.children.Perm (b.children ++ heads)
  links : ∀ s n, block.linked? s = some n → b.linked? s = some n ∨
    HasSocket c b s ∧ ∃ child ∈ placed, child.id = n ∧ StandsAt c (siteAt b.id s) child

theorem LinksInto.mono {c : Catalogue} {b : Block} {xs ys : List Block} (h : LinksInto c b xs)
    (hs : ∀ x ∈ xs, x ∈ ys) : LinksInto c b ys := by
  intro s n hn
  obtain ⟨hsocket, child, hm, he⟩ := h s n hn
  exact ⟨hsocket, child, hs child hm, he⟩

/-- What hangs below some heads hangs below whatever these hang below. -/
theorem Below.trans {xs ys : List Block} {hs hs' : List String} {i : String} (h : Below xs hs i)
    (hx : ∀ x ∈ xs, x ∈ ys) (hh : ∀ j ∈ hs, Below ys hs' j) : Below ys hs' i := by
  induction h with
  | head hi => exact hh _ hi
  | link _ hb hn ih => exact .link ih (hx _ hb) hn

namespace Placed

variable {c : Catalogue} {p q p' : Progress} {xs ys : List Block} {hs hs' : List String}

theorem nil (h : p'.taken = p.taken) : Placed c p p' [] [] :=
  ⟨List.nodup_nil, by simp, by simp [h], by simp, by simp, by simp⟩

theorem append (h : Placed c p q xs hs) (h' : Placed c q p' ys hs') :
    Placed c p p' (xs ++ ys) (hs ++ hs') := by
  refine ⟨?_, ?_, ?_, ?_, ?_, ?_⟩
  · rw [List.map_append, List.nodup_append]
    refine ⟨h.nodup, h'.nodup, ?_⟩
    intro i hi j hj he
    obtain ⟨b, hb, rfl⟩ := List.mem_map.mp hj
    exact h'.fresh b hb ((h.taken b.id).mpr (.inl (he ▸ hi)))
  · intro b hb
    rcases List.mem_append.mp hb with hb | hb
    · exact h.fresh b hb
    · exact fun ht => h'.fresh b hb ((h.taken b.id).mpr (.inr ht))
  · intro i
    rw [h'.taken, h.taken, List.map_append, List.mem_append]
    tauto
  · have hswap : (hs ++ hs' ++ (xs.flatMap Block.children ++ ys.flatMap Block.children)).Perm
        ((hs ++ xs.flatMap Block.children) ++ (hs' ++ ys.flatMap Block.children)) := by
      simp only [List.append_assoc]
      refine List.Perm.append_left hs ?_
      rw [← List.append_assoc, ← List.append_assoc]
      exact List.Perm.append_right _ List.perm_append_comm
    rw [List.flatMap_append, List.map_append]
    exact hswap.trans (h.linked.append h'.linked)
  · intro b hb
    rcases List.mem_append.mp hb with hb | hb
    · exact (h.stands b hb).mono fun x hx => List.mem_append_left _ hx
    · exact (h'.stands b hb).mono fun x hx => List.mem_append_right _ hx
  · intro b hb
    rcases List.mem_append.mp hb with hb | hb
    · apply (h.below b hb).trans
      · intro x hx
        exact List.mem_append_left _ hx
      · intro j hj
        exact .head (List.mem_append_left _ hj)
    · apply (h'.below b hb).trans
      · intro x hx
        exact List.mem_append_right _ hx
      · intro j hj
        exact .head (List.mem_append_right _ hj)

theorem node {b : Block} (hid : b.id ∉ p.taken) (hq : q.taken = b.id :: p.taken)
    (h : Placed c q p' xs hs) (hc : b.children.Perm hs) (hl : LinksInto c b xs) :
    Placed c p p' (b :: xs) [b.id] := by
  have hhead : Below (b :: xs) [b.id] b.id := .head List.mem_cons_self
  refine ⟨?_, ?_, ?_, ?_, ?_, ?_⟩
  · rw [List.map_cons, List.nodup_cons]
    refine ⟨fun hm => ?_, h.nodup⟩
    obtain ⟨x, hx, he⟩ := List.mem_map.mp hm
    exact h.fresh x hx (by simp [hq, he])
  · refine List.forall_mem_cons.mpr ⟨hid, fun x hx ht => ?_⟩
    exact h.fresh x hx (by simp [hq, ht])
  · intro i
    rw [h.taken, hq, List.map_cons, List.mem_cons, List.mem_cons]
    tauto
  · rw [List.flatMap_cons, List.map_cons, List.singleton_append]
    exact ((hc.append_right _).trans h.linked).cons b.id
  · refine List.forall_mem_cons.mpr ⟨hl.mono fun x hx => List.mem_cons_of_mem b hx, fun x hx => ?_⟩
    exact (h.stands x hx).mono fun y hy => List.mem_cons_of_mem b hy
  · refine List.forall_mem_cons.mpr ⟨hhead, fun x hx => ?_⟩
    apply (h.below x hx).trans
    · intro y hy
      exact List.mem_cons_of_mem b hy
    · intro j hj
      exact .link hhead List.mem_cons_self (hc.mem_iff.mpr hj)

end Placed

namespace Filled

variable {c : Catalogue} {b block : Block} {placed others : List Block} {hs hs' : List String}

theorem refl (c : Catalogue) (b : Block) : Filled c b b [] [] :=
  ⟨rfl, by simp, fun s n hn => .inl hn⟩

theorem id_eq (h : Filled c b block placed hs) : block.id = b.id := by rw [h.same]

theorem plug {child : Block} {s : Socket} (hfree : b.linked? s = none) (hsocket : HasSocket c b s)
    (hchild : StandsAt c (siteAt b.id s) child) (hm : child ∈ placed) :
    Filled c b (b.plug child.id s) placed [child.id] := by
  refine ⟨by cases s <;> rfl, Block.children_plug child.id hfree, ?_⟩
  · intro s' n hn
    rw [Block.linked?_plug] at hn
    split_ifs at hn with he
    · simp only [Option.some.injEq] at hn
      subst he
      exact .inr ⟨hsocket, child, hm, hn, hchild⟩
    · exact .inl hn

theorem trans {mid : Block} (h : Filled c b mid placed hs) (h' : Filled c mid block others hs') :
    Filled c b block (placed ++ others) (hs ++ hs') := by
  refine ⟨?_, ?_, ?_⟩
  · rw [h'.same, h.same]
  · have hc := h'.children.trans (h.children.append_right hs')
    rwa [List.append_assoc] at hc
  · intro s n hn
    rcases h'.links s n hn with hn | ⟨hsocket, child, hm, he, hst⟩
    · rcases h.links s n hn with hn | ⟨hsocket, child, hm, he⟩
      · exact .inl hn
      · exact .inr ⟨hsocket, child, List.mem_append_left _ hm, he⟩
    · rw [h.id_eq] at hst
      rw [h.same] at hsocket
      exact .inr ⟨hsocket, child, List.mem_append_right _ hm, he, hst⟩

/-- A block that was filled from nothing, in front of what was placed for it. -/
theorem isPlaced {p q p' : Progress} (h : Filled c b block placed hs)
    (hfree : ∀ s, b.linked? s = none) (hp : Placed c q p' placed hs) (hid : b.id ∉ p.taken)
    (hq : q.taken = b.id :: p.taken) : Placed c p p' (block :: placed) [block.id] := by
  rw [← h.id_eq] at hid hq
  refine hp.node hid hq ?_ ?_
  · have hnil : b.children = [] := by
      apply List.eq_nil_iff_forall_not_mem.mpr
      intro n hn
      obtain ⟨s, hs⟩ := Block.mem_children_iff.mp hn
      simp [hfree s] at hs
    simpa [hnil] using h.children
  · intro s n hn
    rcases h.links s n hn with hn | ⟨hsocket, hchild⟩
    · simp [hfree s] at hn
    · rw [h.id_eq]
      refine ⟨?_, hchild⟩
      rw [h.same]
      exact hsocket

end Filled

mutual

/-- No block of a tree has two fields or two inputs of one name. -/
def Tree.Distinct : Tree → Prop
  | .node entry inputs next =>
    (entry.fields.map Prod.fst).Nodup ∧ (inputs.map Prod.fst).Nodup ∧ DistinctInputs inputs ∧
      (match next with
        | some t => t.Distinct
        | none => True)

def DistinctInputs : List (String × Tree) → Prop
  | [] => True
  | (_, t) :: r => t.Distinct ∧ DistinctInputs r

end

/-- The id of a block, `n` being the number of ids that were generated before, and that number after
it. -/
def Entry.label (n : Nat) (e : Entry) : String × Nat :=
  match e.id with
  | some id => (id, n)
  | none => (generatedId (n + 1), n + 1)

def Entry.bare (e : Entry) (id : String) : Block where
  id := id
  typeId := e.typeId
  fields := Table.ofList (supportedFields e.fields)
  mutation := e.mutation
  enabled := e.enabled
  position := e.position

section Run

variable {α β : Type} {p p' : Progress}

theorem exists_run_bind {x : Loading α} {f : α → Loading β} {r : β}
    (h : (x >>= f).run p = (r, p')) : ∃ a q, x.run p = (a, q) ∧ (f a).run q = (r, p') :=
  ⟨_, _, rfl, h⟩

theorem run_takeId {e : Entry} {i : String} (h : (takeId e.id).run p = (i, p')) :
    ∃ n, e.label p.generated = (i, n) ∧ p' = { p with generated := n } := by
  unfold Entry.label
  cases hid : e.id with
  | some id =>
    rw [hid] at h
    cases h
    exact ⟨_, rfl, rfl⟩
  | none =>
    rw [hid] at h
    cases h
    exact ⟨_, rfl, rfl⟩

end Run

theorem socket?_cases {c : Catalogue} {parent : Option Shape} {m : Mutation} {slot : String}
    {child : Tree} {s : Socket} (h : socket? c parent m slot child = some s) :
    (s = .value slot ∨ s = .statement slot) ∧
      ∀ shape, parent = some shape → offers shape m s = true := by
  unfold socket? at h
  cases parent with
  | some shape =>
    simp only at h
    split_ifs at h with hv hs
    · cases h
      refine ⟨.inl rfl, fun shape' he => ?_⟩
      cases he
      exact hv
    · cases h
      refine ⟨.inr rfl, fun shape' he => ?_⟩
      cases he
      exact hs
  | none =>
    simp only at h
    refine ⟨?_, nofun⟩
    cases hs : c.shape? child.entry.typeId with
    | none =>
      simp only [hs, Option.some.injEq] at h
      exact .inr h.symm
    | some shape =>
      simp only [hs] at h
      split_ifs at h
      · exact .inl (Option.some.inj h).symm
      · exact .inr (Option.some.inj h).symm

def Free (b : Block) (slot : String) : Prop :=
  b.linked? (.value slot) = none ∧ b.linked? (.statement slot) = none

theorem Free.plug {b : Block} {slot other n : String} {s : Socket} (h : Free b other)
    (hs : s = .value slot ∨ s = .statement slot) (hne : other ≠ slot) : Free (b.plug n s) other := by
  rcases hs with rfl | rfl <;> exact ⟨by simp [Block.linked?_plug, hne, h.1], by
    simp [Block.linked?_plug, hne, h.2]⟩

theorem Free.plugFirst {b : Block} {slot : String} {s : Socket} {r : List (String × Tree)}
    (hs : s = .value slot ∨ s = .statement slot) (hn : slot ∉ r.map Prod.fst)
    (hf : ∀ e ∈ r, Free b e.1) (placed : List Block) :
    ∀ e ∈ r, Free (plugFirst b s placed) e.1 := by
  intro e he
  cases placed with
  | nil => exact hf e he
  | cons child rest =>
    apply (hf e he).plug hs
    intro heq
    exact hn (heq ▸ List.mem_map.mpr ⟨e, he, rfl⟩)

theorem linked?_bare (e : Entry) (id : String) (s : Socket) : (e.bare id).linked? s = none := by
  cases s <;> rfl

/-- A block was admitted at a site, with the next id if it had none. -/
structure Admitted (c : Catalogue) (site : Site) (entry : Entry) (p q : Progress) (id : String) :
    Prop where
  label : entry.label p.generated = (id, q.generated)
  fresh : id ∉ p.taken
  taken : q.taken = id :: p.taken
  problems : q.problems = p.problems ++ fieldProblems id entry.typeId entry.fields
  stands : ∀ b : Block, b.typeId = entry.typeId → StandsAt c site b

/-- How placing a tree can go: the block is refused, with all below and after it, or it is admitted,
and then its inputs and what follows are placed. -/
inductive PlacesTree (c : Catalogue) (site : Site) (entry : Entry) (inputs : List (String × Tree))
    (p : Progress) : Option Tree → List Block → Progress → Prop where
  | misplaced {next : Option Tree} {id : String} {n : Nat} {why : Misplacement}
    (hlabel : entry.label p.generated = (id, n))
    (hwhy : (c.shape? entry.typeId).bind (misplacement? · site) = some why) :
    PlacesTree c site entry inputs p next [] { p with
      generated := n, problems := p.problems ++ [⟨id, entry.typeId, .misplaced why⟩] }
  | duplicate {next : Option Tree} {id : String} {n : Nat}
    (hlabel : entry.label p.generated = (id, n)) (htaken : id ∈ p.taken) :
    PlacesTree c site entry inputs p next [] { p with
      generated := n
      problems := p.problems ++ fieldProblems id entry.typeId entry.fields ++
        [⟨id, entry.typeId, .duplicateId⟩] }
  | last {id : String} {block : Block} {inner : List Block} {q q' : Progress}
    (hadm : Admitted c site entry p q id)
    (hinputs : (placeInputs c (c.shape? entry.typeId) (entry.bare id) inputs).run q =
      ((block, inner), q')) :
    PlacesTree c site entry inputs p none (block :: inner) q'
  | followed {tree : Tree} {id : String} {block : Block} {inner following : List Block}
    {q q' p' : Progress} (hadm : Admitted c site entry p q id)
    (hinputs : (placeInputs c (c.shape? entry.typeId) (entry.bare id) inputs).run q =
      ((block, inner), q'))
    (hgo : canBeFollowed (c.shape? entry.typeId) = true)
    (hfollow : (placeTree c (.next id) tree).run q' = (following, p')) :
    PlacesTree c site entry inputs p (some tree)
      (plugFirst block .next following :: (inner ++ following)) p'
  | unfollowed {tree : Tree} {id : String} {block : Block} {inner : List Block} {q q' : Progress}
    (hadm : Admitted c site entry p q id)
    (hinputs : (placeInputs c (c.shape? entry.typeId) (entry.bare id) inputs).run q =
      ((block, inner), q'))
    (hstop : ¬ canBeFollowed (c.shape? entry.typeId) = true) :
    PlacesTree c site entry inputs p (some tree) (block :: inner) { q' with
      problems := q'.problems ++ [⟨id, entry.typeId, .cannotBeFollowed⟩] }

theorem placesTree_of_run {c : Catalogue} {site : Site} {entry : Entry}
    {inputs : List (String × Tree)} {next : Option Tree} {p p' : Progress} {blocks : List Block}
    (h : (placeTree c site (.node entry inputs next)).run p = (blocks, p')) :
    PlacesTree c site entry inputs p next blocks p' := by
  rw [placeTree] at h
  obtain ⟨id, p₁, hid, h⟩ := exists_run_bind h
  obtain ⟨n, hlabel, rfl⟩ := run_takeId hid
  cases hm : (c.shape? entry.typeId).bind (misplacement? · site) with
  | some why =>
    simp only [hm] at h
    cases h
    exact .misplaced hlabel hm
  | none =>
    simp only [hm] at h
    obtain ⟨_, p₂, hr, h⟩ := exists_run_bind h
    cases hr
    obtain ⟨_, p₃, hg, h⟩ := exists_run_bind h
    cases hg
    split at h
    · rename_i hcontains
      cases h
      exact .duplicate hlabel (by simpa using hcontains)
    · rename_i hcontains
      obtain ⟨_, p₄, hmod, h⟩ := exists_run_bind h
      obtain ⟨⟨block, inner⟩, p₅, hplaced, h⟩ := exists_run_bind h
      have hadm : Admitted c site entry p p₄ id := by
        cases hmod
        refine ⟨hlabel, by simpa using hcontains, rfl, rfl, ?_⟩
        intro b hb shape hs
        rw [hb] at hs
        simpa [hs] using hm
      cases next with
      | none =>
        cases h
        exact .last hadm hplaced
      | some tree =>
        simp only at h
        split at h
        · rename_i hfollowed
          obtain ⟨following, p₆, hfollow, h⟩ := exists_run_bind h
          cases h
          exact .followed hadm hplaced hfollowed hfollow
        · rename_i hstop
          cases h
          exact .unfollowed hadm hplaced hstop

/-- What placing a tree does if it reports no problem: the block is admitted, its inputs are placed,
and then the tree that follows, if there is one. -/
theorem placeTree_cases {c : Catalogue} {site : Site} {entry : Entry} {inputs : List (String × Tree)}
    {next : Option Tree} {p p' : Progress} {blocks : List Block}
    (h : (placeTree c site (.node entry inputs next)).run p = (blocks, p'))
    (hp' : p'.problems = []) :
    ∃ id block inner q q', Admitted c site entry p q id ∧
      (placeInputs c (c.shape? entry.typeId) (entry.bare id) inputs).run q = ((block, inner), q') ∧
      (next = none → q' = p' ∧ blocks = block :: inner) ∧
      ∀ tree, next = some tree → canBeFollowed (c.shape? entry.typeId) = true ∧
        ∃ following, (placeTree c (.next id) tree).run q' = (following, p') ∧
          blocks = plugFirst block .next following :: (inner ++ following) := by
  cases placesTree_of_run h with
  | misplaced => simp at hp'
  | duplicate => simp at hp'
  | unfollowed => simp at hp'
  | last hadm hinputs => exact ⟨_, _, _, _, _, hadm, hinputs, fun _ => ⟨rfl, rfl⟩, nofun⟩
  | followed hadm hinputs hgo hfollow =>
    refine ⟨_, _, _, _, _, hadm, hinputs, nofun, fun tree ht => ?_⟩
    cases ht
    exact ⟨hgo, _, hfollow, rfl⟩

/-- How placing inputs can go: the first one has no socket and is left out, or it is placed, and then
come the others. -/
inductive PlacesInputs (c : Catalogue) (shape : Option Shape) (b : Block) (slot : String)
    (tree : Tree) (r : List (String × Tree)) (p : Progress) :
    Block × List Block → Progress → Prop where
  | unknown {result : Block × List Block} {p' : Progress}
    (hs : socket? c shape b.mutation slot tree = none)
    (hrest : (placeInputs c shape b r).run { p with
      problems := p.problems ++ [⟨b.id, b.typeId, .unknownInput slot⟩] } = (result, p')) :
    PlacesInputs c shape b slot tree r p result p'
  | placed {s : Socket} {block : Block} {placed others : List Block} {q p' : Progress}
    (hs : socket? c shape b.mutation slot tree = some s)
    (hplaced : (placeTree c (siteAt b.id s) tree).run p = (placed, q))
    (hrest : (placeInputs c shape (plugFirst b s placed) r).run q = ((block, others), p')) :
    PlacesInputs c shape b slot tree r p (block, placed ++ others) p'

theorem placesInputs_of_run {c : Catalogue} {shape : Option Shape} {b : Block} {slot : String}
    {tree : Tree} {r : List (String × Tree)} {p p' : Progress} {result : Block × List Block}
    (h : (placeInputs c shape b ((slot, tree) :: r)).run p = (result, p')) :
    PlacesInputs c shape b slot tree r p result p' := by
  rw [placeInputs] at h
  cases hs : socket? c shape b.mutation slot tree with
  | none =>
    simp only [hs] at h
    obtain ⟨_, p₁, hr, h⟩ := exists_run_bind h
    cases hr
    exact .unknown hs h
  | some s =>
    simp only [hs] at h
    obtain ⟨placed, q, hplaced, h⟩ := exists_run_bind h
    obtain ⟨⟨block, others⟩, p₂, hrest, h⟩ := exists_run_bind h
    cases h
    exact .placed hs hplaced hrest

mutual

/-- Problems are only ever added. -/
theorem placeTree_problems (c : Catalogue) : ∀ (tree : Tree) {site : Site} {p p' : Progress}
    {blocks : List Block}, (placeTree c site tree).run p = (blocks, p') → p'.problems = [] →
      p.problems = []
  | .node entry inputs next, site, p, p', blocks, h, hp' => by
    obtain ⟨id, block, inner, q, q', hadm, hplaced, hlast, hgo⟩ := placeTree_cases h hp'
    have hq' : q'.problems = [] := by
      cases next with
      | none =>
        rw [(hlast rfl).1]
        exact hp'
      | some tree =>
        obtain ⟨-, following, hfollow, -⟩ := hgo tree rfl
        exact placeTree_problems c tree hfollow hp'
    have hq := placeInputs_problems c inputs hplaced hq'
    rw [hadm.problems] at hq
    exact (List.append_eq_nil_iff.mp hq).1

theorem placeInputs_problems (c : Catalogue) : ∀ (inputs : List (String × Tree))
    {shape : Option Shape} {b : Block} {p p' : Progress} {r : Block × List Block},
    (placeInputs c shape b inputs).run p = (r, p') → p'.problems = [] → p.problems = []
  | [], shape, b, p, p', _, h, hp' => by
    cases h
    exact hp'
  | (slot, tree) :: rest, shape, b, p, p', _, h, hp' => by
    cases placesInputs_of_run h with
    | unknown _ hrest => exact (List.append_eq_nil_iff.mp (placeInputs_problems c rest hrest hp')).1
    | placed _ hplaced hrest =>
      exact placeTree_problems c tree hplaced (placeInputs_problems c rest hrest hp')

end

/-- What placing a tree does if it reports no problem: none was reported for the inputs either, nor for
the fields. -/
theorem placeTree_steps {c : Catalogue} {site : Site} {entry : Entry} {inputs : List (String × Tree)}
    {next : Option Tree} {p p' : Progress} {blocks : List Block}
    (h : (placeTree c site (.node entry inputs next)).run p = (blocks, p'))
    (hp' : p'.problems = []) :
    ∃ id block inner q q', Admitted c site entry p q id ∧
      fieldProblems id entry.typeId entry.fields = [] ∧
      (placeInputs c (c.shape? entry.typeId) (entry.bare id) inputs).run q = ((block, inner), q') ∧
      q'.problems = [] ∧ (next = none → q' = p' ∧ blocks = block :: inner) ∧
      ∀ tree, next = some tree → canBeFollowed (c.shape? entry.typeId) = true ∧
        ∃ following, (placeTree c (.next id) tree).run q' = (following, p') ∧
          blocks = plugFirst block .next following :: (inner ++ following) := by
  obtain ⟨id, block, inner, q, q', hadm, hplaced, hlast, hgo⟩ := placeTree_cases h hp'
  have hq' : q'.problems = [] := by
    cases next with
    | none =>
      rw [(hlast rfl).1]
      exact hp'
    | some tree =>
      obtain ⟨-, following, hfollow, -⟩ := hgo tree rfl
      exact placeTree_problems c tree hfollow hp'
  have hq := placeInputs_problems c inputs hplaced hq'
  rw [hadm.problems] at hq
  exact ⟨id, block, inner, q, q', hadm, (List.append_eq_nil_iff.mp hq).2, hplaced, hq', hlast, hgo⟩

/-- What placing inputs does if it reports no problem: the first one has a socket and is placed, and
then the others. -/
theorem placeInputs_cases {c : Catalogue} {shape : Option Shape} {b block : Block} {slot : String}
    {tree : Tree} {r : List (String × Tree)} {p p' : Progress} {inner : List Block}
    (h : (placeInputs c shape b ((slot, tree) :: r)).run p = ((block, inner), p'))
    (hp' : p'.problems = []) :
    ∃ s placed q others, socket? c shape b.mutation slot tree = some s ∧
      (placeTree c (siteAt b.id s) tree).run p = (placed, q) ∧ q.problems = [] ∧
      (placeInputs c shape (plugFirst b s placed) r).run q = ((block, others), p') ∧
      inner = placed ++ others := by
  cases placesInputs_of_run h with
  | unknown _ hrest => simpa using placeInputs_problems c r hrest hp'
  | placed hs hplaced hrest =>
    exact ⟨_, _, _, _, hs, hplaced, placeInputs_problems c r hrest hp', hrest, rfl⟩

mutual

/-- A tree that was placed without a problem: its first block stands at the site, and all others are
linked. -/
theorem placeTree_ok (c : Catalogue) : ∀ (tree : Tree) {site : Site} {p p' : Progress}
    {blocks : List Block}, (placeTree c site tree).run p = (blocks, p') → p'.problems = [] →
      tree.Distinct → ∃ head rest, blocks = head :: rest ∧ StandsAt c site head ∧
        Placed c p p' blocks [head.id]
  | .node entry inputs next, site, p, p', blocks, h, hp', hd => by
    unfold Tree.Distinct at hd
    obtain ⟨-, hnodup, hinputs, hnext⟩ := hd
    obtain ⟨id, block, inner, q, q', hadm, -, hplaced, hq', hlast, hgo⟩ := placeTree_steps h hp'
    have hunlinked := linked?_bare entry id
    have hinit : ∀ e ∈ inputs, Free (entry.bare id) e.1 := fun e _ => ⟨hunlinked _, hunlinked _⟩
    obtain ⟨hnone, heads, hpl, hfill⟩ := placeInputs_ok c inputs rfl hplaced hq' hnodup hinputs hinit
    cases next with
    | none =>
      obtain ⟨rfl, rfl⟩ := hlast rfl
      refine ⟨block, inner, rfl, hadm.stands block ?_, ?_⟩
      · rw [hfill.same]
        rfl
      · exact hfill.isPlaced hunlinked hpl hadm.fresh hadm.taken
    | some tree =>
      obtain ⟨hfollowed, following, hfollow, rfl⟩ := hgo tree rfl
      obtain ⟨child, rest, rfl, hchild, hplf⟩ := placeTree_ok c tree hfollow hp' hnext
      have hfree : block.linked? .next = none := hnone.trans (hunlinked .next)
      have hsocket : HasSocket c block .next := by
        intro shape hs
        have htype : block.typeId = entry.typeId := by rw [hfill.same]; rfl
        rw [htype] at hs
        rw [hs] at hfollowed
        exact hfollowed
      have hsite : siteAt block.id .next = .next id := by rw [hfill.id_eq]; rfl
      have hmem : child ∈ child :: rest := List.mem_cons_self
      have hall := hfill.trans (.plug hfree hsocket (hsite ▸ hchild) hmem)
      refine ⟨_, _, rfl, hadm.stands _ ?_, ?_⟩
      · rw [plugFirst, hall.same]
        rfl
      · exact hall.isPlaced hunlinked (hpl.append hplf) hadm.fresh hadm.taken

theorem placeInputs_ok (c : Catalogue) : ∀ (inputs : List (String × Tree)) {shape : Option Shape}
    {b block : Block} {p p' : Progress} {inner : List Block}, shape = c.shape? b.typeId →
    (placeInputs c shape b inputs).run p = ((block, inner), p') → p'.problems = [] →
      (inputs.map Prod.fst).Nodup → DistinctInputs inputs → (∀ e ∈ inputs, Free b e.1) →
        block.next = b.next ∧ ∃ heads, Placed c p p' inner heads ∧ Filled c b block inner heads
  | [], shape, b, block, p, p', inner, _, h, _, _, _, _ => by
    cases h
    exact ⟨rfl, [], .nil rfl, .refl c b⟩
  | (slot, tree) :: r, shape, b, block, p, p', inner, hshape, h, hp', hn, hd, hf => by
    rw [List.map_cons, List.nodup_cons] at hn
    rw [List.forall_mem_cons] at hf
    obtain ⟨s, placed, q, others, hs, hplaced, hq, hrest, rfl⟩ := placeInputs_cases h hp'
    obtain ⟨hcases, hoffers⟩ := socket?_cases hs
    have hfree : b.linked? s = none := by
      rcases hcases with rfl | rfl
      · exact hf.1.1
      · exact hf.1.2
    have hsocket : HasSocket c b s := fun shape' hs' => hoffers shape' (hshape.trans hs')
    have hother := Free.plugFirst hcases hn.1 hf.2 placed
    obtain ⟨child, rest, rfl, hchild, hplt⟩ := placeTree_ok c tree hplaced hq hd.1
    have htype : (b.plug child.id s).typeId = b.typeId := by cases s <;> rfl
    obtain ⟨hnext, heads, hpl, hfill⟩ :=
      placeInputs_ok c r (htype ▸ hshape) hrest hp' hn.2 hd.2 hother
    have hmem : child ∈ child :: rest := List.mem_cons_self
    have hplug := Filled.plug hfree hsocket hchild hmem
    refine ⟨?_, _, hplt.append hpl, hplug.trans hfill⟩
    rw [hnext]
    rcases hcases with rfl | rfl <;> rfl

end

theorem placeForest_ok (c : Catalogue) {forest : List Tree} {p p' : Progress} {blocks : List Block}
    (h : (placeForest c forest).run p = (blocks, p')) (hp' : p'.problems = [])
    (hd : ∀ tree ∈ forest, tree.Distinct) :
    p.problems = [] ∧ ∃ heads, Placed c p p' blocks heads := by
  induction forest generalizing p blocks with
  | nil =>
    cases h
    exact ⟨hp', [], .nil rfl⟩
  | cons tree forest ih =>
    rw [List.forall_mem_cons] at hd
    obtain ⟨placed, p₁, hplaced, h⟩ := exists_run_bind h
    obtain ⟨others, p₂, hothers, h⟩ := exists_run_bind h
    cases h
    obtain ⟨hp₁, heads, hpl⟩ := ih hothers hd.2
    obtain ⟨head, rest, rfl, -, hplt⟩ := placeTree_ok c tree hplaced hp₁ hd.1
    exact ⟨placeTree_problems c tree hplaced hp₁, _, hplt.append hpl⟩

theorem mem_present {α : Type} {l : List (String × Option α)} {e : String × α}
    (h : e ∈ present l) : (e.1, some e.2) ∈ l := by
  obtain ⟨⟨slot, x⟩, hm, he⟩ := List.mem_filterMap.mp h
  cases x with
  | none => simp at he
  | some x =>
    cases he
    exact hm

theorem nodup_present {α : Type} {l : List (String × Option α)} (h : (l.map Prod.fst).Nodup) :
    ((present l).map Prod.fst).Nodup := by
  induction l with
  | nil => exact List.nodup_nil
  | cons e r ih =>
    rw [List.map_cons, List.nodup_cons] at h
    obtain ⟨slot, x⟩ := e
    cases x with
    | none => exact ih h.2
    | some x =>
      have hcons : present ((slot, some x) :: r) = (slot, x) :: present r := rfl
      rw [hcons, List.map_cons, List.nodup_cons]
      refine ⟨fun hm => h.1 ?_, ih h.2⟩
      obtain ⟨e, he, hslot⟩ := List.mem_map.mp hm
      exact List.mem_map.mpr ⟨_, mem_present he, hslot⟩

theorem distinctInputs_iff (inputs : List (String × Tree)) :
    DistinctInputs inputs ↔ ∀ e ∈ inputs, e.2.Distinct := by
  induction inputs with
  | nil => simp [DistinctInputs]
  | cons e r ih => simp [DistinctInputs, ih]

mutual

/-- The fields and the inputs of every block of a document have different names once it is a tree. -/
theorem Node.distinct_tree : ∀ node : Node, node.tree.Distinct
  | .mk entry inputs next => by
    unfold Node.tree Tree.Distinct
    refine ⟨(Table.ofList entry.fields).distinct,
      nodup_present (Table.ofList (inputTrees inputs)).distinct, ?_, ?_⟩
    · rw [distinctInputs_iff]
      intro e he
      exact distinct_inputTrees inputs e.1 e.2 (Table.mem_of_mem_ofList (mem_present he))
    · cases next with
      | none => trivial
      | some connection =>
        cases ht : connection.tree? with
        | none => simp [ht]
        | some t => simpa [ht] using connection.distinct_tree t ht

theorem Connection.distinct_tree : ∀ (connection : Connection) (t : Tree),
    connection.tree? = some t → t.Distinct
  | .mk (some block) _, t, h => by
    cases h
    exact block.distinct_tree
  | .mk none (some shadow), t, h => by
    cases h
    exact shadow.distinct_tree
  | .mk none none, t, h => by cases h

theorem distinct_inputTrees : ∀ (inputs : List (String × Connection)) (slot : String) (t : Tree),
    (slot, some t) ∈ inputTrees inputs → t.Distinct
  | [], slot, t, h => by simp [inputTrees] at h
  | (slot', connection) :: r, slot, t, h => by
    rw [inputTrees] at h
    rcases List.mem_cons.mp h with h | h
    · simp only [Prod.mk.injEq] at h
      exact connection.distinct_tree t h.2.symm
    · exact distinct_inputTrees r slot t h

end

/-- An accepted document was placed from the start without a problem. -/
theorem loadNodes_run {c : Catalogue} {nodes : List Node} {w : Workspace}
    (h : loadNodes c nodes = .ok w) :
    ∃ blocks p', w = workspaceOf blocks ∧ p'.problems = [] ∧
      (placeForest c (nodes.map Node.tree)).run {} = (blocks, p') := by
  unfold loadNodes loadForest at h
  rcases hrun : (placeForest c (nodes.map Node.tree)).run {} with ⟨blocks, p'⟩
  simp only [hrun] at h
  split_ifs at h with hp
  exact ⟨blocks, p', (Except.ok.inj h).symm, by simpa using hp, rfl⟩

theorem distinct_trees (nodes : List Node) : ∀ tree ∈ nodes.map Node.tree, tree.Distinct := by
  intro tree ht
  obtain ⟨node, -, rfl⟩ := List.mem_map.mp ht
  exact node.distinct_tree

/-- The links of a workspace make a forest, and every link is at a socket that the block has and
leads to a block that may stand there. -/
structure IsForest (c : Catalogue) (w : Workspace) : Prop where
  linkedOnce : w.linkedIds.Nodup
  stands : ∀ id b s n, w.get? id = some b → b.linked? s = some n →
    ∃ child, w.get? n = some child ∧ StandsAt c (siteAt id s) child
  sockets : ∀ id b s n, w.get? id = some b → b.linked? s = some n → HasSocket c b s
  rooted : ∀ id ∈ w.blocks.keys, w.Rooted id

section

variable {c : Catalogue} {p p' : Progress} {blocks : List Block} {heads : List String}

theorem entries_workspaceOf (h : (blocks.map Block.id).Nodup) :
    (workspaceOf blocks).blocks.entries = blocks.map fun b => (b.id, b) :=
  Table.entries_ofList (by simpa [List.map_map, Function.comp_def] using h)

theorem get?_workspaceOf (h : (blocks.map Block.id).Nodup) {id : String} {b : Block} :
    (workspaceOf blocks).get? id = some b ↔ b ∈ blocks ∧ b.id = id := by
  rw [Workspace.get?, Table.get?_eq_some_iff, entries_workspaceOf h, List.mem_map]
  constructor
  · rintro ⟨b', hb, he⟩
    cases he
    exact ⟨hb, rfl⟩
  · rintro ⟨hb, rfl⟩
    exact ⟨b, hb, rfl⟩

theorem keys_workspaceOf (h : (blocks.map Block.id).Nodup) :
    (workspaceOf blocks).blocks.keys = blocks.map Block.id := by
  rw [Table.keys, entries_workspaceOf h, List.map_map]
  rfl

theorem linkedIds_workspaceOf (h : (blocks.map Block.id).Nodup) :
    (workspaceOf blocks).linkedIds = blocks.flatMap Block.children := by
  rw [Workspace.linkedIds_eq, entries_workspaceOf h, List.flatMap_map]

/-- What hangs below the heads hangs below a block that is not linked. -/
theorem Placed.rooted (h : Placed c p p' blocks heads) {i : String} (hi : Below blocks heads i) :
    (workspaceOf blocks).Rooted i := by
  induction hi with
  | @head i hi =>
    apply Workspace.Rooted.top
    rw [linkedIds_workspaceOf h.nodup]
    intro hm
    have hall := h.linked.nodup_iff.mpr h.nodup
    exact (List.nodup_append.mp hall).2.2 i hi i hm rfl
  | link _ hb hn ih =>
    obtain ⟨s, hs⟩ := Block.mem_children_iff.mp hn
    exact .link ih ((get?_workspaceOf h.nodup).mpr ⟨hb, rfl⟩) hs

theorem Placed.isForest (h : Placed c p p' blocks heads) : IsForest c (workspaceOf blocks) := by
  refine ⟨?_, ?_, ?_, ?_⟩
  · rw [linkedIds_workspaceOf h.nodup]
    have hall := h.linked.nodup_iff.mpr h.nodup
    exact (List.nodup_append.mp hall).2.1
  · intro id b s n hb hn
    obtain ⟨hmem, rfl⟩ := (get?_workspaceOf h.nodup).mp hb
    obtain ⟨-, child, hc, hid, hst⟩ := h.stands b hmem s n hn
    exact ⟨child, (get?_workspaceOf h.nodup).mpr ⟨hc, hid⟩, hst⟩
  · intro id b s n hb hn
    obtain ⟨hmem, rfl⟩ := (get?_workspaceOf h.nodup).mp hb
    exact (h.stands b hmem s n hn).1
  · intro id hid
    rw [keys_workspaceOf h.nodup] at hid
    obtain ⟨b, hb, rfl⟩ := List.mem_map.mp hid
    exact h.rooted (h.below b hb)

end

theorem loadNodes_isForest {c : Catalogue} {nodes : List Node} {w : Workspace}
    (h : loadNodes c nodes = .ok w) : IsForest c w := by
  obtain ⟨blocks, p', rfl, hp', hrun⟩ := loadNodes_run h
  obtain ⟨-, heads, hpl⟩ := placeForest_ok c hrun hp' (distinct_trees nodes)
  exact hpl.isForest

end BlockSketch.Document
