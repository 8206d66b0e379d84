import BlockSketch.Proofs.Document.Placing
import BlockSketch.Proofs.Program.Builtin
import BlockSketch.Proofs.Program.Explanation

namespace BlockSketch.Program

open Document (IsForest StandsAt siteAt misplacement?)

/-- What a walked reference is: a root, or the link of a block at a socket. -/
theorem Walked.root_or_link {c : Context} {roots : List String} {r : Reference} {place : Place} {n : String}
    (h : Walked c roots r place n) :
    (∃ i, r = .root i ∧ place = c.rootPlace n ∧ roots[i]? = some n) ∨
      ∃ id b s, r = .link id s ∧ place = placeAt s ∧ c.workspace.get? id = some b ∧
        b.linked? s = some n := by
  cases h with
  | root h => exact .inl ⟨_, rfl, rfl, h⟩
  | link _ hb _ hn => exact .inr ⟨_, _, _, rfl, rfl, hb, hn⟩

section Forest

variable {c : Context}

def Context.allRoots (c : Context) : List String := c.workspace.programRoots c.catalogue

theorem root_not_linked {i : Nat} {n : String} (h : c.allRoots[i]? = some n) :
    n ∈ c.workspace.blocks.keys ∧ n ∉ c.workspace.linkedIds :=
  Workspace.mem_programRoots_iff.mp (List.mem_of_getElem? h)

/-- Where links lead to blocks that are there, so does every walked reference. -/
theorem present_of_linked (hl : ∀ id b s n, c.workspace.get? id = some b → b.linked? s = some n →
    n ∈ c.workspace.blocks.keys) {r : Reference} {place : Place} {n : String}
    (h : Walked c c.allRoots r place n) : c.workspace.get? n ≠ none := by
  have hkey : n ∈ c.workspace.blocks.keys := by
    rcases h.root_or_link with ⟨i, -, -, hi⟩ | ⟨id, b, s, -, -, hb, hn⟩
    · exact (root_not_linked hi).1
    · exact hl id b s n hb hn
  exact fun hnone => (Table.get?_eq_none_iff _ n).mp hnone hkey

/-- In a forest every walked reference names a block. -/
theorem present_of_isForest (hf : IsForest c.catalogue c.workspace) {r : Reference} {place : Place}
    {n : String} (h : Walked c c.allRoots r place n) : c.workspace.get? n ≠ none := by
  refine present_of_linked (fun id b s n hb hn => ?_) h
  obtain ⟨child, hchild, -⟩ := hf.stands id b s n hb hn
  exact Table.mem_keys_of_get? hchild

/-- In a forest no block is named twice. -/
theorem not_namedTwice_of_isForest (hf : IsForest c.catalogue c.workspace) (n : String) :
    ¬ NamedTwice c c.allRoots n := by
  rintro ⟨r, r', place, place', hne, hw, hw'⟩
  apply hne
  rcases hw.root_or_link with ⟨i, rfl, -, hi⟩ | ⟨id, b, s, rfl, -, hb, hn⟩
  · rcases hw'.root_or_link with ⟨j, rfl, -, hj⟩ | ⟨id, b, s, rfl, -, hb, hn⟩
    · have hlt := (List.getElem?_eq_some_iff.mp hi).1
      have hnodup := c.workspace.nodup_programRoots c.catalogue
      rw [(List.getElem?_inj hlt hnodup).mp (hi.trans hj.symm)]
    · exact absurd (Workspace.mem_linkedIds hb hn) (root_not_linked hi).2
  · rcases hw'.root_or_link with ⟨j, rfl, -, hj⟩ | ⟨id', b', s', rfl, -, hb', hn'⟩
    · exact absurd (Workspace.mem_linkedIds hb hn) (root_not_linked hj).2
    · obtain ⟨rfl, rfl⟩ := Workspace.link_unique hf.linkedOnce hb hb' hn hn'
      rfl

/-- What may stand at a socket is what the walk asks for there. -/
theorem output_of_not_misplaced {shape : Shape} {id : String} {s : Socket}
    (h : misplacement? shape (siteAt id s) = none) :
    shape.output = (placeAt s).output ∧ shape.isEntry = false := by
  have hkind : shape.output = .statement ∨ shape.output = .value := by
    cases shape.output <;> simp
  cases s with
  | next | statement slot =>
    simp only [siteAt, misplacement?] at h
    split_ifs at h with he hv
    rw [Shape.isValue_iff] at hv
    exact ⟨hkind.resolve_right hv, by simpa using he⟩
  | value slot =>
    simp only [siteAt, misplacement?] at h
    split_ifs at h with he hst
    rw [Shape.isStatement_iff] at hst
    exact ⟨hkind.resolve_left hst, by simpa using he⟩

/-- In a forest every block of a known type suits its place. -/
theorem suits_of_isForest (hf : IsForest c.catalogue c.workspace) {v : Visit}
    (hv : v.Walked c c.allRoots) (hen : v.block.enabled = true) {shape : Shape}
    (hs : c.catalogue.shape? v.block.typeId = some shape) :
    shape.output = v.place.output ∧ (v.place = .chain → shape.isEntry = false) := by
  rcases hv.reference.root_or_link with ⟨i, -, hp, -⟩ | ⟨id, b, s, -, hp, hb, hn⟩
  · have hroot : v.place = if shape.isValue then .operand else .top := by
      simp [hp, Context.rootPlace, hv.block, hs, hen]
    cases hk : shape.output with
    | value => simp [hroot, Shape.isValue, hk, Place.output]
    | statement => simp [hroot, Shape.isValue, hk, Place.output]
  · obtain ⟨child, hchild, hst⟩ := hf.stands id b s v.id hb hn
    rw [hv.block, Option.some.injEq] at hchild
    subst hchild
    obtain ⟨ho, he⟩ := output_of_not_misplaced (hst shape hs)
    exact ⟨hp ▸ ho, fun _ => he⟩

end Forest

/-- A pass over an accepted document fails at most for a block of an unknown type or for the value
of a field. -/
theorem fault_of_loaded (nodes : List Document.Node) (w : Workspace) (f : Fault)
    (hload : Document.loadNodes Arduino.catalogue nodes = .ok w) (hf : ofWorkspace w = .error f) :
    (∃ id typeId, f = .unknownType id typeId) ∨ ∃ id field why, f = .malformedField id field why := by
  have hforest : IsForest (builtinContext w).catalogue (builtinContext w).workspace :=
    Document.loadNodes_isForest hload
  have he : f.Explained (builtinContext w) (builtinContext w).allRoots := generate_explained hf
  cases f with
  | unknownType id typeId => exact .inl ⟨id, typeId, rfl⟩
  | malformedField id field why => exact .inr ⟨id, field, why, rfl⟩
  | missing id =>
    obtain ⟨⟨r, place, hw⟩, hnone⟩ := he
    exact absurd hnone (present_of_isForest hforest hw)
  | cyclic id => exact absurd he.2 (not_namedTwice_of_isForest hforest id)
  | shared id => exact absurd he (not_namedTwice_of_isForest hforest id)
  | missingRule id typeId =>
    obtain ⟨v, -, -, -, -, hnone, shape, hs⟩ := he
    obtain ⟨rule, hr, -⟩ := builtin_rule hs
    have hr' : (builtinContext w).rules.get? typeId = some rule := hr
    simp [hnone] at hr'
  | mismatch id expected =>
    obtain ⟨v, hv, hen, -, shape, hs, hwrong⟩ := he
    obtain ⟨ho, hentry⟩ := suits_of_isForest hforest hv hen hs
    obtain ⟨rule, hr, hro⟩ := builtin_rule hs
    rcases hwrong with hne | ⟨hp, hen'⟩ | ⟨rule', hr', hne⟩
    · exact absurd ho hne
    · rw [hentry hp] at hen'
      cases hen'
    · have heq : some rule' = some rule := hr'.symm.trans hr
      cases heq
      exact absurd (hro.trans ho) hne

/-- A loop whose body starts with a block of an unknown type, which is not enabled and has a shadow as
its input, and goes on with a delay that is no number. -/
def sampleNodes : List Document.Node :=
  [.mk { typeId := "arduino_loop" }
    [("LOOP", .mk (some (.mk { typeId := "mystery", enabled := false }
      [("INPUT", .mk none (some (.mk { typeId := "arduino_number" } [] none)))]
      (some (.mk (some (.mk { typeId := "arduino_delay", fields := [("DELAY", .text "soon")] } [] none))
        none)))) none)] none]

theorem fault_of_loaded_sample :
    ∃ w f, Document.loadNodes Arduino.catalogue sampleNodes = .ok w ∧ ofWorkspace w = .error f ∧
      f.message = "block 'b4' field DELAY: 'soon' is not a number" ∧
      ((∃ id typeId, f = .unknownType id typeId) ∨
        ∃ id field why, f = .malformedField id field why) := by
  have hrun : (Document.loadNodes Arduino.catalogue sampleNodes).toOption.map (fun w =>
      ((ofWorkspace w).isOk, ((ofWorkspace w).tryCatch fun f => .ok f.message).toOption)) =
        some (false, some "block 'b4' field DELAY: 'soon' is not a number") := by
    decide +kernel
  cases hload : Document.loadNodes Arduino.catalogue sampleNodes with
  | error problems => simp [hload, Except.toOption] at hrun
  | ok w =>
    simp only [hload, Except.toOption, Option.map_some, Option.some.injEq, Prod.mk.injEq] at hrun
    cases hf : ofWorkspace w with
    | ok text => simp [hf, Except.isOk, Except.toBool] at hrun
    | error f =>
      simp only [hf, Except.tryCatch, Option.some.injEq] at hrun
      exact ⟨w, f, rfl, hf, hrun.2, fault_of_loaded sampleNodes w f hload hf⟩

end BlockSketch.Program
