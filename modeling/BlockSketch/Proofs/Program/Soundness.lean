import BlockSketch.Proofs.Program.Explanation
import BlockSketch.Proofs.Program.Fields

namespace BlockSketch.Program

/-- A graph is sound below some roots. The rank of a type counts only where its blocks are statements. -/
structure Sound (c : Context) (roots : List String) : Prop where
  /-- Every walked reference names a block. -/
  present : ∀ r place id, Walked c roots r place id → ∃ b, c.workspace.get? id = some b
  /-- No block is named twice. -/
  unshared : ∀ r r' place place' id, Walked c roots r place id → Walked c roots r' place' id → r = r'
  /-- Every enabled block has a type and a rule that suit its place. -/
  placed : ∀ v : Visit, v.Walked c roots → v.block.enabled = true → ∃ shape rule,
    c.catalogue.shape? v.block.typeId = some shape ∧ c.rules.get? v.block.typeId = some rule ∧
      shape.output = v.place.output ∧ rule.output = v.place.output ∧
      (shape.output = .statement → shape.isEntry = true → v.place = .top)
  /-- Every field that is read is declared and holds a value of its kind, and operators are known. -/
  fields : ∀ v : Visit, v.Walked c roots → v.block.enabled = true → ∀ shape rule,
    c.catalogue.shape? v.block.typeId = some shape → c.rules.get? v.block.typeId = some rule →
      (∀ name ∈ rule.fields, HasField shape v.block name) ∧
        (rule = .operation → (operator? (fieldOf shape v.block "OP")).isSome = true)

section

variable {c : Context} {roots : List String}

theorem map_id_forestVisits {rest : List String} {trees : List Tree} (h : UnfoldRoots c rest trees) :
    ∀ i, (forestVisits c i rest trees).map Visit.id = trees.flatMap Tree.ids := by
  induction h with
  | nil => simp [forestVisits]
  | cons _ _ ih =>
    intro i
    simp [forestVisits, Tree.map_id_visits, ih]

theorem FoundForest.entered_eq {texts : List String} {t : Trail} {trees : List Tree}
    (h : FoundForest c 0 roots {} t trees)
    (ho : outcome (rootTexts c c.depth roots) {} = (.ok texts, t)) :
    entered c roots = trees.flatMap Tree.ids := by
  rw [entered, pass_eq_outcome, ho]
  simp [h.leaves.visited]

theorem FoundForest.sound {trees : List Tree} {t t' : Trail}
    (h : FoundForest c 0 roots t t' trees) : Sound c roots := by
  have hnodup : ((forestVisits c 0 roots trees).map Visit.id).Nodup := by
    rw [map_id_forestVisits h.unfold]
    exact h.leaves.nodup
  have hwalked : ∀ v ∈ forestVisits c 0 roots trees, v.Walked c roots := h.unfold.walked 0 (by simp)
  have hadmits (v : Visit) (hv : v.Walked c roots) : c.Admits v.place v.block := by
    obtain ⟨b, hb⟩ := h.unfold.visit_of_walked hv.reference
    have hblock := (hwalked _ hb).block
    rw [hv.block, Option.some.injEq] at hblock
    exact hblock ▸ h.admitted _ hb
  -- Every walked reference is met in the trees, and each visit there has its own id.
  refine ⟨?_, ?_, ?_, ?_⟩
  · intro r place id hw
    obtain ⟨b, hb⟩ := h.unfold.visit_of_walked hw
    exact ⟨b, (hwalked _ hb).block⟩
  · intro r r' place place' id hw hw'
    obtain ⟨b, hb⟩ := h.unfold.visit_of_walked hw
    obtain ⟨b', hb'⟩ := h.unfold.visit_of_walked hw'
    have he := List.inj_on_of_nodup_map hnodup hb hb' rfl
    exact congrArg Visit.reference he
  · intro v hv hen
    obtain ⟨shape, rule, hs, hr, hso, hro, hentry, -⟩ := hadmits v hv hen
    refine ⟨shape, rule, hs, hr, hso, hro, fun ho he => ?_⟩
    cases hp : v.place with
    | top => rfl
    | chain => rw [hentry hp] at he; cases he
    | operand => rw [hp, ho] at hso; cases hso
  · intro v hv hen shape rule hs hr
    obtain ⟨shape', rule', hs', hr', -, -, -, hf⟩ := hadmits v hv hen
    rw [hs, Option.some.injEq] at hs'
    rw [hr, Option.some.injEq] at hr'
    subst hs' hr'
    exact (Rule.fault?_eq_none_iff shape v.block rule).mp hf

theorem sound_of_generate {text : String} (h : generate c roots = .ok text) : Sound c roots := by
  obtain ⟨texts, t, ho, -⟩ := pass_of_generate h
  obtain ⟨trees, hf, -⟩ := rootTexts_ok 0 ho
  exact hf.sound

/-- In a sound graph no fault has an explanation. -/
theorem Sound.not_explained (h : Sound c roots) (f : Fault) : ¬ f.Explained c roots := by
  have htwice (id : String) : ¬ NamedTwice c roots id := by
    rintro ⟨r, r', place, place', hne, hw, hw'⟩
    exact hne (h.unshared r r' place place' id hw hw')
  cases f with
  | missing id =>
    rintro ⟨⟨r, place, hw⟩, hnone⟩
    obtain ⟨b, hb⟩ := h.present r place id hw
    rw [hnone] at hb
    cases hb
  | cyclic id => exact fun he => htwice id he.2
  | shared id => exact htwice id
  | unknownType id typeId =>
    rintro ⟨v, hv, hen, -, rfl, hnone⟩
    obtain ⟨shape, rule, hs, -⟩ := h.placed v hv hen
    rw [hnone] at hs
    cases hs
  | missingRule id typeId =>
    rintro ⟨v, hv, hen, -, rfl, hnone, -⟩
    obtain ⟨shape, rule, -, hr, -⟩ := h.placed v hv hen
    rw [hnone] at hr
    cases hr
  | malformedField id field why =>
    rintro ⟨v, hv, hen, -, shape, rule, hs, hr, hf⟩
    have hnone := (Rule.fault?_eq_none_iff shape v.block rule).mpr (h.fields v hv hen shape rule hs hr)
    rw [hnone] at hf
    cases hf
  | mismatch id expected =>
    rintro ⟨v, hv, hen, -, shape', hs', hwrong⟩
    obtain ⟨shape, rule, hs, hr, hso, hro, hentry⟩ := h.placed v hv hen
    rw [hs, Option.some.injEq] at hs'
    subst hs'
    rcases hwrong with hne | ⟨hp, he⟩ | ⟨rule', hr', hne⟩
    · exact hne hso
    · have htop := hentry (by rw [hso, hp]; rfl) he
      rw [hp] at htop
      cases htop
    · rw [hr, Option.some.injEq] at hr'
      subst hr'
      exact hne hro

theorem Sound.exists_generate (h : Sound c roots) : ∃ text, generate c roots = .ok text := by
  cases hg : generate c roots with
  | ok text => exact ⟨text, rfl⟩
  | error f => exact absurd (generate_explained hg) (h.not_explained f)

end

end BlockSketch.Program
