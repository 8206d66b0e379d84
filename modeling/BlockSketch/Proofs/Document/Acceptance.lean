import BlockSketch.Proofs.Document.Nesting

namespace BlockSketch.Document

/-- How a block of a tree is attached. -/
inductive Attachment where
  | top
  | next (parent : Entry)
  | input (parent : Entry) (slot : String)

mutual

/-- The blocks of a tree, each with how it is attached. -/
def Tree.standing (a : Attachment) : Tree → List (Attachment × Entry)
  | .node entry inputs next =>
    (a, entry) :: (inputsStanding entry inputs ++ (match next with
      | some t => t.standing (.next entry)
      | none => []))

def inputsStanding (parent : Entry) : List (String × Tree) → List (Attachment × Entry)
  | [] => []
  | (slot, t) :: r => t.standing (.input parent slot) ++ inputsStanding parent r

end

/-- A block suits how it is attached, as far as its own type and that of its parent are known. A
slot that is accepted both ways counts as a value slot. -/
def Attachment.Suits (c : Catalogue) (e : Entry) : Attachment → Prop
  | .top => True
  | .next parent =>
    (∀ own, c.shape? e.typeId = some own → own.isEntry = false ∧ own.output ≠ .value) ∧
      ∀ shape, c.shape? parent.typeId = some shape → shape.isEntry = false ∧ shape.output ≠ .value
  | .input parent slot =>
    (∀ own, c.shape? e.typeId = some own → own.isEntry = false) ∧
      ∀ shape, c.shape? parent.typeId = some shape →
        (shape.acceptsValue slot parent.mutation = true ∨
          shape.acceptsStatement slot parent.mutation = true) ∧
        ∀ own, c.shape? e.typeId = some own →
          (own.output = .value ↔ shape.acceptsValue slot parent.mutation = true)

/-- The fields of a block hold numbers, texts and truth values. -/
def Entry.Supported (e : Entry) : Prop := ∀ f ∈ e.fields, ∃ x, Shows f.2 x

/-- A forest is acceptable. -/
structure Acceptable (c : Catalogue) (forest : List Tree) : Prop where
  /-- The blocks have different ids, those that are generated included. -/
  distinct : (((numbered forest).flatMap Tree.entries).map Entry.id).Nodup
  supported : ∀ e ∈ forest.flatMap Tree.entries, e.Supported
  suits : ∀ x ∈ forest.flatMap (Tree.standing .top), x.1.Suits c x.2

/-- A block may stand at a site, as far as its type is known. -/
def MayStand (c : Catalogue) (site : Site) (e : Entry) : Prop :=
  ∀ own, c.shape? e.typeId = some own → misplacement? own site = none

def takes : Socket → Output
  | .value _ => .value
  | .statement _ | .next => .statement

section Attached

variable {c : Catalogue} {i : String} {e : Entry} {parent : Entry} {slot : String}

theorem mayStand_iff {s : Socket} : MayStand c (siteAt i s) e ↔
    ∀ own, c.shape? e.typeId = some own → own.isEntry = false ∧ own.output = takes s := by
  have hsite (own : Shape) :
      misplacement? own (siteAt i s) = none ↔ own.isEntry = false ∧ own.output = takes s := by
    cases he : own.isEntry <;> cases ho : own.output <;> cases s <;>
      simp [siteAt, misplacement?, takes, Shape.isValue, Shape.isStatement, he, ho]
  simp only [MayStand, hsite]

theorem ne_value_iff (o : Output) : o ≠ .value ↔ o = .statement := by
  cases o <;> decide

theorem suits_next_iff : (Attachment.next parent).Suits c e ↔
    canBeFollowed (c.shape? parent.typeId) = true ∧ MayStand c (siteAt i .next) e := by
  have hfollow : canBeFollowed (c.shape? parent.typeId) = true ↔
      ∀ shape, c.shape? parent.typeId = some shape → shape.isEntry = false ∧ shape.output ≠ .value := by
    cases hp : c.shape? parent.typeId <;> simp [canBeFollowed, ne_value_iff, and_comm]
  rw [mayStand_iff, hfollow, Attachment.Suits, and_comm]
  simp only [ne_value_iff, takes]

theorem suits_input_iff {t : Tree} : (Attachment.input parent slot).Suits c t.entry ↔
    ∃ s, socket? c (c.shape? parent.typeId) parent.mutation slot t = some s ∧
      MayStand c (siteAt i s) t.entry := by
  simp only [mayStand_iff, Attachment.Suits]
  cases hp : c.shape? parent.typeId with
  | none =>
    -- The child decides what kind of slot it is.
    cases ho : c.shape? t.entry.typeId with
    | none => simp [socket?, ho]
    | some own => cases hk : own.output <;> simp [socket?, ho, hk, takes, Shape.isValue]
  | some shape =>
    cases hv : shape.acceptsValue slot parent.mutation with
    | true => simp [socket?, hv, takes, forall_and]
    | false =>
      cases hs : shape.acceptsStatement slot parent.mutation with
      | true => simp [socket?, hv, hs, takes, forall_and, ← ne_eq, ne_value_iff]
      | false => simp [socket?, hv, hs]

end Attached

/-- The site that an attachment is, if the parent has one for it; `i` is the id of the parent. -/
def Attachment.site? (c : Catalogue) (i : String) (t : Tree) : Attachment → Option Site
  | .top => some .top
  | .next parent => if canBeFollowed (c.shape? parent.typeId) then some (siteAt i .next) else none
  | .input parent slot =>
    (socket? c (c.shape? parent.typeId) parent.mutation slot t).map (siteAt i)

/-- What is attached suits its place exactly if there is a site for it where it may stand. -/
theorem Attachment.suits_iff {c : Catalogue} {t : Tree} (i : String) (a : Attachment) :
    a.Suits c t.entry ↔ ∃ site, a.site? c i t = some site ∧ MayStand c site t.entry := by
  cases a with
  | top => simp [Suits, site?, MayStand, misplacement?]
  | next parent => simpa [site?] using suits_next_iff
  | input parent slot => simpa [site?] using suits_input_iff

theorem fieldProblems_eq_nil_iff {id typeId : String} {e : Entry} :
    fieldProblems id typeId e.fields = [] ↔ e.Supported := by
  have hvalue (v : Json.Value) : ¬ fieldValue? v = none ↔ ∃ x, Shows v x := by
    constructor
    · intro h
      obtain ⟨x, hx⟩ := Option.ne_none_iff_exists'.mp h
      exact ⟨x, shows_of_fieldValue? hx⟩
    · rintro ⟨x, hx⟩
      cases hx <;> simp [fieldValue?]
  simp [fieldProblems, Entry.Supported, hvalue]

@[simp] theorem typeId_plugFirst (b : Block) (s : Socket) (placed : List Block) :
    (plugFirst b s placed).typeId = b.typeId := by
  cases placed <;> cases s <;> rfl

@[simp] theorem mutation_plugFirst (b : Block) (s : Socket) (placed : List Block) :
    (plugFirst b s placed).mutation = b.mutation := by
  cases placed <;> cases s <;> rfl

section Fit

variable {c : Catalogue}

mutual

/-- If a tree is placed without a problem, then all its blocks suit how they are attached. -/
theorem placeTree_suits : ∀ (tree : Tree) {a : Attachment} {i : String} {site : Site}
    {p p' : Progress} {blocks : List Block}, a.site? c i tree = some site →
      (placeTree c site tree).run p = (blocks, p') → p'.problems = [] →
        (∀ e ∈ tree.entries, e.Supported) ∧
          ∀ x ∈ tree.standing a, x.1.Suits c x.2
  | .node entry inputs next, a, i, site, p, p', blocks, hsite, h, hp' => by
    obtain ⟨id, block, inner, q, q', hadm, hclean, hplaced, hq', hlast, hgo⟩ := placeTree_steps h hp'
    have hown : a.Suits c entry := (a.suits_iff i).mpr ⟨site, hsite, hadm.stands (entry.bare id) rfl⟩
    have hfields := fieldProblems_eq_nil_iff.mp hclean
    obtain ⟨hinner, hinputs⟩ := placeInputs_suits inputs rfl hplaced hq'
    cases next with
    | none =>
      simp only [Tree.entries, Tree.standing, List.forall_mem_cons, List.append_nil]
      exact ⟨⟨hfields, hinner⟩, hown, hinputs⟩
    | some tree =>
      obtain ⟨hfollowed, following, hfollow, -⟩ := hgo tree rfl
      have hnext : (Attachment.next entry).site? c id tree = some (.next id) := by
        simp [Attachment.site?, hfollowed, siteAt]
      obtain ⟨hafter, hbehind⟩ := placeTree_suits tree hnext hfollow hp'
      simp only [Tree.entries, Tree.standing, List.forall_mem_cons, List.forall_mem_append]
      exact ⟨⟨hfields, hinner, hafter⟩, hown, hinputs, hbehind⟩

theorem placeInputs_suits : ∀ (inputs : List (String × Tree)) {entry : Entry} {b block : Block}
    {p p' : Progress} {inner : List Block}, b.mutation = entry.mutation →
      (placeInputs c (c.shape? entry.typeId) b inputs).run p = ((block, inner), p') →
        p'.problems = [] → (∀ e ∈ inputsEntries inputs, e.Supported) ∧
          ∀ x ∈ inputsStanding entry inputs, x.1.Suits c x.2
  | [], entry, b, block, p, p', inner, _, _, _ => by simp [inputsEntries, inputsStanding]
  | (slot, tree) :: r, entry, b, block, p, p', inner, hb, h, hp' => by
    obtain ⟨s, placed, q, others, hs, hplaced, hq, hrest, rfl⟩ := placeInputs_cases h hp'
    rw [hb] at hs
    have hsite : (Attachment.input entry slot).site? c b.id tree = some (siteAt b.id s) := by
      simp [Attachment.site?, hs]
    have hb' : (plugFirst b s placed).mutation = entry.mutation := by simpa using hb
    obtain ⟨hinner, hfirst⟩ := placeTree_suits tree hsite hplaced hq
    obtain ⟨hfields, hothers⟩ := placeInputs_suits r hb' hrest hp'
    simp only [inputsEntries, inputsStanding, List.forall_mem_append]
    exact ⟨⟨hinner, hfields⟩, hfirst, hothers⟩

end

end Fit

section Runs

variable {c : Catalogue} {p q : Progress}

theorem run_bind_of_eq {α β : Type} {x : Loading α} {f : α → Loading β} {a : α}
    (h : x.run p = (a, q)) : (x >>= f).run p = (f a).run q := by
  rw [StateT.run_bind, h]
  rfl

/-- A block that can be admitted is, and then come its inputs and what follows. -/
theorem run_placeTree {site : Site} {entry : Entry} {inputs : List (String × Tree)} {id : String}
    {n : Nat} {block : Block} {inner : List Block} (hlabel : entry.label p.generated = (id, n))
    (hfresh : id ∉ p.taken) (hclean : fieldProblems id entry.typeId entry.fields = [])
    (hstand : MayStand c site entry)
    (hinputs : (placeInputs c (c.shape? entry.typeId) (entry.bare id) inputs).run
      { p with generated := n, taken := id :: p.taken } = ((block, inner), q)) :
    ((placeTree c site (.node entry inputs none)).run p).2 = q ∧
      ∀ tree, canBeFollowed (c.shape? entry.typeId) = true →
        ((placeTree c site (.node entry inputs (some tree))).run p).2 =
          ((placeTree c (.next id) tree).run q).2 := by
  have hid : (takeId entry.id).run p = (id, { p with generated := n }) := by
    unfold Entry.label at hlabel
    cases he : entry.id <;> rw [he] at hlabel <;> cases hlabel <;> rfl
  have hmay : (c.shape? entry.typeId).bind (misplacement? · site) = none := by
    cases hs : c.shape? entry.typeId with
    | none => rfl
    | some own => exact hstand own hs
  have hreport : (reportAll (fieldProblems id entry.typeId entry.fields)).run
      { p with generated := n } = ((), { p with generated := n }) := by
    rw [hclean, reportAll, StateT.run_modify, List.append_nil]
    rfl
  have hget (r : Progress) : (get : Loading Progress).run r = (r, r) := rfl
  have htake : (modify fun s => { s with taken := id :: s.taken } : Loading Unit).run
      { p with generated := n } = ((), { p with generated := n, taken := id :: p.taken }) := rfl
  have hnot : ¬ p.taken.contains id = true := by simpa using hfresh
  constructor
  · rw [placeTree, run_bind_of_eq hid]
    simp only [hmay]
    rw [run_bind_of_eq hreport, run_bind_of_eq (hget _), if_neg hnot, run_bind_of_eq htake]
    change (StateT.run (placeInputs c _ (entry.bare id) inputs >>= _) _).2 = _
    rw [run_bind_of_eq hinputs]
    rfl
  · intro tree hfollowed
    rw [placeTree, run_bind_of_eq hid]
    simp only [hmay, hfollowed, if_true]
    rw [run_bind_of_eq hreport, run_bind_of_eq (hget _), if_neg hnot, run_bind_of_eq htake]
    change (StateT.run (placeInputs c _ (entry.bare id) inputs >>= _) _).2 = _
    rw [run_bind_of_eq hinputs]
    rfl

/-- An input that has a socket is placed there, and then come the others. -/
theorem run_placeInputs {shape : Option Shape} {b : Block} {slot : String} {tree : Tree}
    {r : List (String × Tree)} {s : Socket} {placed : List Block}
    (hs : socket? c shape b.mutation slot tree = some s)
    (hplaced : (placeTree c (siteAt b.id s) tree).run p = (placed, q)) :
    ((placeInputs c shape b ((slot, tree) :: r)).run p).2 =
      ((placeInputs c shape (plugFirst b s placed) r).run q).2 := by
  rw [placeInputs]
  simp only [hs]
  rw [run_bind_of_eq hplaced]
  rfl

end Runs

/-- The ids of a tree, `n` being the number of ids that were generated before. -/
def Tree.ids (n : Nat) (t : Tree) : List (Option String) := (t.label n).1.entries.map Entry.id

def inputsIds (n : Nat) (inputs : List (String × Tree)) : List (Option String) :=
  (inputsEntries (labelInputs n inputs).1).map Entry.id

def nextIds (n : Nat) : Option Tree → List (Option String)
  | none => []
  | some t => t.ids n

theorem Tree.ids_node {entry : Entry} {n m : Nat} {id : String} (h : entry.label n = (id, m))
    (inputs : List (String × Tree)) (next : Option Tree) :
    (Tree.node entry inputs next).ids n =
      [some id] ++ (inputsIds m inputs ++ nextIds (labelInputs m inputs).2 next) := by
  cases next <;> simp [Tree.ids, Tree.label, Tree.entries, inputsIds, nextIds, h]

theorem inputsIds_cons (n : Nat) (slot : String) (t : Tree) (r : List (String × Tree)) :
    inputsIds n ((slot, t) :: r) = t.ids n ++ inputsIds (t.label n).2 r := by
  simp [inputsIds, Tree.ids, labelInputs, inputsEntries]

/-- Ids can be taken: they are different, and none of them is taken. -/
structure Fresh (p : Progress) (ids : List (Option String)) : Prop where
  nodup : ids.Nodup
  free : ∀ i ∈ p.taken, some i ∉ ids

/-- Ids were taken between two states, and `n` were generated by then. -/
structure Took (p p' : Progress) (n : Nat) (ids : List (Option String)) : Prop where
  generated : p'.generated = n
  taken : ∀ i, i ∈ p'.taken ↔ some i ∈ ids ∨ i ∈ p.taken

section Ids

variable {c : Catalogue} {p p' : Progress} {xs ys : List (Option String)} {id : String} {n : Nat}

theorem Fresh.left (h : Fresh p (xs ++ ys)) : Fresh p xs :=
  ⟨(List.nodup_append.mp h.nodup).1, fun i hi hm => h.free i hi (List.mem_append_left _ hm)⟩

theorem Fresh.right (h : Fresh p (xs ++ ys)) (ht : Took p p' n xs) : Fresh p' ys := by
  obtain ⟨-, hys, hdisjoint⟩ := List.nodup_append.mp h.nodup
  refine ⟨hys, fun i hi hm => ?_⟩
  rcases (ht.taken i).mp hi with hi | hi
  · exact hdisjoint _ hi _ hm rfl
  · exact h.free i hi (List.mem_append_right _ hm)

theorem Fresh.not_taken (h : Fresh p (some id :: xs)) : id ∉ p.taken := fun hm =>
  h.free id hm List.mem_cons_self

theorem took_admitted (n : Nat) : Took p { p with generated := n, taken := id :: p.taken } n [some id] :=
  ⟨rfl, by simp⟩

theorem ids_of_described {entries : List Entry} {blocks : List Block}
    (h : List.Forall₂ Entry.Describes entries blocks) :
    entries.map Entry.id = (blocks.map Block.id).map some := by
  induction h with
  | nil => rfl
  | cons hb _ ih => simp only [List.map_cons, hb.id, ih]

theorem Placed.took {blocks : List Block} {heads : List String} {entries : List Entry}
    (h : Placed c p p' blocks heads) (hgen : p'.generated = n)
    (hd : List.Forall₂ Entry.Describes entries blocks) : Took p p' n (entries.map Entry.id) := by
  refine ⟨hgen, fun i => ?_⟩
  rw [h.taken, ids_of_described hd]
  simp

theorem placeTree_took {tree : Tree} {site : Site} {blocks : List Block} (hd : tree.Distinct)
    (h : (placeTree c site tree).run p = (blocks, p')) (hp' : p'.problems = []) :
    Took p p' (tree.label p.generated).2 (tree.ids p.generated) := by
  obtain ⟨nest, hnest, hgen⟩ := placeTree_nest c tree h hp' hd
  obtain ⟨head, rest, -, -, hplaced⟩ := placeTree_ok c tree h hp' hd
  exact hplaced.took hgen hnest.described

theorem placeInputs_took (entry : Entry) {b block : Block} {inputs : List (String × Tree)}
    {inner : List Block} (hb : b.typeId = entry.typeId) (hn : (inputs.map Prod.fst).Nodup)
    (hd : DistinctInputs inputs) (hf : ∀ e ∈ inputs, Free b e.1)
    (h : (placeInputs c (c.shape? entry.typeId) b inputs).run p = ((block, inner), p'))
    (hp' : p'.problems = []) :
    Took p p' (labelInputs p.generated inputs).2 (inputsIds p.generated inputs) := by
  obtain ⟨order, statements, values, hres, hgen⟩ := placeInputs_nest c inputs h hp' hn hd hf
  obtain ⟨-, heads, hplaced, -⟩ := placeInputs_ok c inputs (by rw [hb]) h hp' hn hd hf
  exact hplaced.took hgen hres.described

end Ids

theorem Tree.mem_standing (a : Attachment) (t : Tree) : (a, t.entry) ∈ t.standing a := by
  obtain ⟨entry, inputs, next⟩ := t
  cases next <;> exact List.mem_cons_self

section Accept

variable {c : Catalogue}

mutual

/-- A tree whose blocks suit how they are attached is placed without a problem if its ids can be
taken. -/
theorem placeTree_accepts : ∀ (tree : Tree) {a : Attachment} {i : String} {site : Site}
    {p : Progress}, a.site? c i tree = some site →
      (∀ e ∈ tree.entries, e.Supported) →
      (∀ x ∈ tree.standing a, x.1.Suits c x.2) → tree.Distinct → p.problems = [] →
        Fresh p (tree.ids p.generated) → ((placeTree c site tree).run p).2.problems = []
  | .node entry inputs next, a, i, site, p, hsite, hfields, hsuits, hd, hp, hfresh => by
    unfold Tree.Distinct at hd
    obtain ⟨-, hnodup, hdinputs, hdnext⟩ := hd
    rcases hlabel : entry.label p.generated with ⟨id, n⟩
    rw [Tree.ids_node hlabel] at hfresh
    -- The block itself is admitted.
    obtain ⟨site', hsite', hstand⟩ := (a.suits_iff i).mp (hsuits _ (Tree.mem_standing a _))
    obtain rfl : site = site' := Option.some.inj (hsite.symm.trans hsite')
    have hclean : fieldProblems id entry.typeId entry.fields = [] := by
      apply fieldProblems_eq_nil_iff.mpr
      apply hfields
      cases next <;> exact List.mem_cons_self
    -- So are its inputs.
    have hinner : ∀ e ∈ inputsEntries inputs, e.Supported := by
      intro e he
      apply hfields
      cases next <;> simp [Tree.entries, he]
    have hinputs : ∀ x ∈ inputsStanding entry inputs, x.1.Suits c x.2 := by
      intro x hx
      apply hsuits
      cases next <;> simp [Tree.standing, hx]
    have hinit : ∀ e ∈ inputs, Free (entry.bare id) e.1 := fun e _ =>
      ⟨linked?_bare entry id _, linked?_bare entry id _⟩
    have hbelow := hfresh.right (took_admitted n)
    rcases hrun : (placeInputs c (c.shape? entry.typeId) (entry.bare id) inputs).run
      { p with generated := n, taken := id :: p.taken } with ⟨⟨block, inner⟩, q⟩
    have hq : q.problems = [] := by
      have hrun' := congrArg (fun r => r.2.problems) hrun
      rw [← hrun']
      exact placeInputs_accepts inputs rfl rfl hinner hinputs hnodup hdinputs hinit hp hbelow.left
    obtain ⟨hlast, hgo⟩ := run_placeTree hlabel hfresh.not_taken hclean hstand hrun
    cases next with
    | none =>
      rw [hlast]
      exact hq
    | some tree =>
      simp only [Tree.entries, List.forall_mem_cons, List.forall_mem_append] at hfields
      simp only [Tree.standing, List.forall_mem_cons, List.forall_mem_append] at hsuits
      obtain ⟨site', hnext, -⟩ :=
        (Attachment.suits_iff id _).mp (hsuits.2.2 _ (tree.mem_standing _))
      have hfollowed : canBeFollowed (c.shape? entry.typeId) = true := by
        by_contra hno
        simp [Attachment.site?, hno] at hnext
      have hsite' : (Attachment.next entry).site? c id tree = some (.next id) := by
        simp [Attachment.site?, hfollowed, siteAt]
      have htook' := placeInputs_took entry rfl hnodup hdinputs hinit hrun hq
      have hbehind := hbelow.right htook'
      rw [nextIds, ← htook'.generated] at hbehind
      rw [hgo tree hfollowed]
      exact placeTree_accepts tree hsite' hfields.2.2 hsuits.2.2 hdnext hq hbehind

theorem placeInputs_accepts : ∀ (inputs : List (String × Tree)) {entry : Entry} {b : Block}
    {p : Progress}, b.typeId = entry.typeId → b.mutation = entry.mutation →
      (∀ e ∈ inputsEntries inputs, e.Supported) →
      (∀ x ∈ inputsStanding entry inputs, x.1.Suits c x.2) → (inputs.map Prod.fst).Nodup →
        DistinctInputs inputs → (∀ e ∈ inputs, Free b e.1) → p.problems = [] →
          Fresh p (inputsIds p.generated inputs) →
            ((placeInputs c (c.shape? entry.typeId) b inputs).run p).2.problems = []
  | [], entry, b, p, _, _, _, _, _, _, _, hp, _ => hp
  | (slot, tree) :: r, entry, b, p, htype, hmutation, hfields, hsuits, hn, hd, hf, hp, hfresh => by
    rw [List.map_cons, List.nodup_cons] at hn
    rw [List.forall_mem_cons] at hf
    simp only [inputsEntries, List.forall_mem_append] at hfields
    simp only [inputsStanding, List.forall_mem_append] at hsuits
    rw [inputsIds_cons] at hfresh
    obtain ⟨site, hsite, -⟩ := (Attachment.suits_iff b.id _).mp (hsuits.1 _ (tree.mem_standing _))
    obtain ⟨s, hs, rfl⟩ := Option.map_eq_some_iff.mp hsite
    rw [← hmutation] at hs
    rcases hplaced : (placeTree c (siteAt b.id s) tree).run p with ⟨placed, q⟩
    have hq := placeTree_accepts tree hsite hfields.1 hsuits.1 hd.1 hp hfresh.left
    rw [hplaced] at hq
    have htook := placeTree_took hd.1 hplaced hq
    have hcases := (socket?_cases hs).1
    have hrest := hfresh.right htook
    rw [← htook.generated] at hrest
    rw [run_placeInputs hs hplaced]
    refine placeInputs_accepts r ?_ ?_ hfields.2 hsuits.2 hn.2 hd.2 ?_ hq hrest
    · simpa using htype
    · simpa using hmutation
    · exact Free.plugFirst hcases hn.1 hf.2 placed

end

end Accept

section Forest

variable {c : Catalogue}

theorem placeForest_suits {forest : List Tree} {p p' : Progress} {blocks : List Block}
    (hd : ∀ tree ∈ forest, tree.Distinct) (h : (placeForest c forest).run p = (blocks, p'))
    (hp' : p'.problems = []) :
    (∀ e ∈ forest.flatMap Tree.entries, e.Supported) ∧
      ∀ x ∈ forest.flatMap (Tree.standing .top), x.1.Suits c x.2 := by
  induction forest generalizing p blocks with
  | nil => simp
  | cons tree forest ih =>
    rw [List.forall_mem_cons] at hd
    obtain ⟨placed, p₁, hplaced, h⟩ := exists_run_bind h
    obtain ⟨others, p₂, hothers, h⟩ := exists_run_bind h
    cases h
    have hp₁ := (placeForest_ok c hothers hp' hd.2).1
    have htop : Attachment.top.site? c "" tree = some .top := rfl
    obtain ⟨hfields, hsuits⟩ := placeTree_suits tree htop hplaced hp₁
    obtain ⟨hfields', hsuits'⟩ := ih hd.2 hothers
    simp only [List.flatMap_cons, List.forall_mem_append]
    exact ⟨⟨hfields, hfields'⟩, hsuits, hsuits'⟩

theorem placeForest_accepts {forest : List Tree} {p : Progress}
    (hfields : ∀ e ∈ forest.flatMap Tree.entries, e.Supported)
    (hsuits : ∀ x ∈ forest.flatMap (Tree.standing .top), x.1.Suits c x.2)
    (hd : ∀ tree ∈ forest, tree.Distinct) (hp : p.problems = [])
    (hfresh : Fresh p (((labelForest p.generated forest).1.flatMap Tree.entries).map Entry.id)) :
    ((placeForest c forest).run p).2.problems = [] := by
  induction forest generalizing p with
  | nil => exact hp
  | cons tree forest ih =>
    simp only [List.flatMap_cons, List.forall_mem_append] at hfields hsuits
    rw [List.forall_mem_cons] at hd
    simp only [labelForest, List.flatMap_cons, List.map_append] at hfresh
    have htop : Attachment.top.site? c "" tree = some .top := rfl
    have hq := placeTree_accepts tree htop hfields.1 hsuits.1 hd.1 hp hfresh.left
    rcases hplaced : (placeTree c .top tree).run p with ⟨placed, q⟩
    rw [hplaced] at hq
    have htook := placeTree_took hd.1 hplaced hq
    have hrest := hfresh.right htook
    rw [← htook.generated] at hrest
    rw [placeForest, run_bind_of_eq hplaced]
    exact ih hfields.2 hsuits.2 hd.2 hq hrest

/-- Nodes are loaded exactly if their forest is acceptable. -/
theorem exists_loadNodes_iff (nodes : List Node) :
    (∃ w, loadNodes c nodes = .ok w) ↔ Acceptable c (nodes.map Node.tree) := by
  have hd := distinct_trees nodes
  constructor
  · rintro ⟨w, h⟩
    obtain ⟨blocks, p', -, hp', hrun⟩ := loadNodes_run h
    obtain ⟨hfields, hsuits⟩ := placeForest_suits hd hrun hp'
    obtain ⟨nests, hforest, hpl⟩ := placeForest_nest c hrun hp' hd
    refine ⟨?_, hfields, hsuits⟩
    have hids := ids_of_described hforest.described
    unfold numbered
    rw [hids]
    exact hpl.nodup.map fun _ _ => Option.some.inj
  · intro h
    have hfresh : Fresh {} (((numbered (nodes.map Node.tree)).flatMap Tree.entries).map Entry.id) :=
      ⟨h.distinct, by simp⟩
    have hp := placeForest_accepts h.supported h.suits hd rfl hfresh
    rcases hrun : (placeForest c (nodes.map Node.tree)).run {} with ⟨blocks, p'⟩
    have hproblems : p'.problems = [] := by simpa [hrun] using hp
    exact ⟨workspaceOf blocks, by simp [loadNodes, loadForest, hrun, hproblems]⟩

end Forest

/-- What is loaded: a text is accepted exactly if it can be read as a document whose forest, with the
block of each connection or else its shadow, is acceptable. -/
theorem exists_load_iff (c : Catalogue) (source : String) :
    (∃ w, load c source = .ok w) ↔ ∃ nodes forest, read source = .ok nodes ∧
      List.Forall₂ Node.Gives nodes forest ∧ Acceptable c forest := by
  simp only [forall₂_gives_iff]
  cases hr : read source with
  | error failure => simp [load, hr]
  | ok nodes =>
    have hload : (∃ w, load c source = .ok w) ↔ ∃ w, loadNodes c nodes = .ok w := by
      cases hn : loadNodes c nodes <;> simp [load, hr, hn]
    rw [hload, exists_loadNodes_iff]
    constructor
    · intro h
      exact ⟨nodes, _, rfl, rfl, h⟩
    · rintro ⟨_, _, ⟨⟩, rfl, h⟩
      exact h

end BlockSketch.Document
