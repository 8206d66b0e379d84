import BlockSketch.Proofs.Program.Quotation

namespace BlockSketch.Program

open Text (Quotes Quoted)

structure Lasting (P : String → Prop) : Prop where
  surround : ∀ a b s, P s → P (a ++ s ++ b)
  indented : ∀ s, P s → P (Program.indented s)
  ne_empty : ∀ s, P s → s ≠ ""

def Rendered.code : Rendered → String
  | .statement code => code
  | .value code _ => code

/-- What an enabled block itself is written as has the property, whatever stands in its slots. -/
def Context.Writes (c : Context) (P : String → Prop) (b : Block) : Prop :=
  b.enabled = true ∧ ∀ chain operand r, blockText c b chain operand = some r → P r.code

/-- The text of a tree at a place has the property. -/
structure Tree.Has (c : Context) (P : String → Prop) (place : Place) (t : Tree) : Prop where
  operand : place = .operand → ∃ code order, t.operand c = some (code, order) ∧ P code
  chain : place ≠ .operand → P (t.chainText c)

def Inputs.HasAt (c : Context) (P : String → Prop) (s : Socket) (inputs : Inputs) : Prop :=
  ∀ shape outer, P (slotText shape outer (inputs.chainText c) (inputs.operand c) s)

theorem Lasting.append_right {P : String → Prop} (h : Lasting P) {s : String} (hs : P s) (b : String) :
    P (s ++ b) := by
  have hb := h.surround "" b s hs
  rwa [String.empty_append] at hb

theorem Lasting.append_left {P : String → Prop} (h : Lasting P) {s : String} (hs : P s) (a : String) :
    P (a ++ s) := by
  have ha := h.surround a "" s hs
  rwa [String.append_empty] at ha

section Blocks

variable {c : Context} {P : String → Prop} {place : Place} {i : String} {b : Block}
  {inputs others : Inputs} {t next : Tree} {s : Socket}

theorem blockText_of_enabled {shape : Shape} {rule : Rule} (hen : b.enabled = true)
    (hs : c.catalogue.shape? b.typeId = some shape) (hr : c.rules.get? b.typeId = some rule)
    (chain : Socket → String) (operand : Socket → Option (String × Order)) :
    blockText c b chain operand = some (rule.render b.mutation (fieldOf shape b)
      (slotText shape (rule.outer (fieldOf shape b)) chain operand)) := by
  rw [blockText, if_pos hen]
  simp only [hs, hr]

theorem Tree.Has.of_rendered {r : Rendered} (hP : Lasting P) (hout : r.output = place.output)
    (hr : blockText c b (inputs.chainText c) (inputs.operand c) = some r) (h : P r.code) :
    (Tree.node i b inputs next).Has c P place := by
  refine ⟨?_, fun hp => ?_⟩
  · rintro rfl
    cases r with
    | statement code => cases hout
    | value code order =>
      refine ⟨code, order, ?_, h⟩
      simp only [Tree.operand, hr, operandText?]
      exact if_neg (hP.ne_empty code h)
  · cases r with
    | statement code =>
      simp only [Tree.chainText, hr, statementText]
      exact hP.append_right h _
    | value code order =>
      cases place with
      | operand => exact absurd rfl hp
      | top | chain => cases hout

theorem Tree.Has.own (hP : Lasting P) (hadmits : c.Admits place b) (h : c.Writes P b) :
    (Tree.node i b inputs next).Has c P place := by
  obtain ⟨shape, rule, hs, hr, -, hout, -⟩ := hadmits h.1
  have htext := blockText_of_enabled h.1 hs hr (inputs.chainText c) (inputs.operand c)
  exact .of_rendered hP ((rule.output_render _ _ _).trans hout) htext (h.2 _ _ _ htext)

theorem Tree.Has.input (hP : Lasting P) (hadmits : c.Admits place b) (hs : s ∈ c.reads b)
    (h : inputs.HasAt c P s) : (Tree.node i b inputs next).Has c P place := by
  have hen : b.enabled = true := by
    by_contra hoff
    rw [Context.reads, if_neg hoff] at hs
    simp at hs
  obtain ⟨shape, rule, hshape, hrule, -, hout, -, hfault⟩ := hadmits hen
  have hsocket : s ∈ rule.sockets b.mutation := by
    simpa only [Context.reads, if_pos hen, hrule] using hs
  have hoperator := ((Rule.fault?_eq_none_iff shape b rule).mp hfault).2
  let text := slotText shape (rule.outer (fieldOf shape b)) (inputs.chainText c) (inputs.operand c)
  -- The template has the text of the socket in one place, so that other text stands around it.
  obtain ⟨a, z, honce⟩ : ∃ a z, ∀ text', AgreeOff s text text' →
      rule.render b.mutation (fieldOf shape b) text' =
        (rule.render b.mutation (fieldOf shape b) text).withCode (a ++ text' s ++ z) :=
    Rule.render_once hsocket hoperator
  have hrender := honce text fun _ _ => rfl
  have htext := blockText_of_enabled hen hshape hrule (inputs.chainText c) (inputs.operand c)
  refine .of_rendered hP ((rule.output_render _ _ _).trans hout) htext ?_
  have hcode : (rule.render b.mutation (fieldOf shape b) text).code = a ++ text s ++ z := by
    rw [hrender]
    cases rule.render b.mutation (fieldOf shape b) text <;> rfl
  exact hcode ▸ hP.surround a z (text s) (h shape _)

theorem Tree.Has.follow (hP : Lasting P) (hp : place ≠ .operand) (h : next.Has c P .chain) :
    (Tree.node i b inputs next).Has c P place :=
  ⟨fun he => absurd he hp, fun _ => hP.append_left (h.chain (by simp)) _⟩

theorem Inputs.HasAt.first (hP : Lasting P) (hs : s ≠ .next) (h : t.Has c P (placeAt s)) :
    (Inputs.cons s t others).HasAt c P s := by
  intro shape outer
  cases s with
  | next => exact absurd rfl hs
  | statement slot =>
    simp only [slotText, Inputs.chainText, if_true]
    exact hP.indented _ (h.chain (by simp [placeAt]))
  | value slot =>
    obtain ⟨code, order, hcode, hPcode⟩ := h.operand rfl
    simp only [slotText, Inputs.operand, if_true, hcode, Order.wrap]
    split_ifs
    · exact hP.surround "(" ")" code hPcode
    · exact hPcode

theorem Inputs.HasAt.later {s₀ : Socket} (hs : s ≠ s₀) (h : others.HasAt c P s) :
    (Inputs.cons s₀ t others).HasAt c P s := by
  intro shape outer
  have hothers := h shape outer
  cases s <;> simpa only [slotText, Inputs.chainText, Inputs.operand, if_neg hs] using hothers

end Blocks

mutual

/-- The text of a tree has what one of its blocks is written with. -/
theorem Tree.Unfolds.has {c : Context} {P : String → Prop} (hP : Lasting P) {r : Reference}
    {place : Place} {at? : Option String} {v : Visit} : ∀ {t : Tree}, t.Unfolds c place at? →
      (∀ v ∈ t.visits r place, c.Admits v.place v.block) → v ∈ t.visits r place →
        c.Writes P v.block → t.Has c P place
  | .leaf, _, _, hv, _ => by simp [Tree.visits] at hv
  | .node i b inputs next, hu, hadmits, hv, hw => by
    obtain ⟨-, -, hi, hnext⟩ := hu
    simp only [Tree.visits, List.forall_mem_cons, List.forall_mem_append] at hadmits
    obtain ⟨hown, hadmitsInputs, hadmitsNext⟩ := hadmits
    simp only [Tree.visits, List.mem_cons, List.mem_append] at hv
    rcases hv with rfl | hv | hv
    · exact .own hP hown hw
    · obtain ⟨s, hs, hat⟩ := hi.has hP (next_not_mem_reads c b) (nodup_reads c b) hadmitsInputs hv hw
      exact .input hP hown hs hat
    · have hplace : place ≠ .operand := by
        rintro rfl
        cases next with
        | leaf => simp [Tree.visits] at hv
        | node => simp [Tree.Unfolds, Place.next?] at hnext
      exact .follow hP hplace (hnext.has hP hadmitsNext hv hw)

theorem Inputs.Unfold.has {c : Context} {P : String → Prop} (hP : Lasting P) {i : String} {b : Block}
    {sockets : List Socket} {v : Visit} : ∀ {inputs : Inputs}, inputs.Unfold c b sockets →
      .next ∉ sockets → sockets.Nodup → (∀ v ∈ inputs.visits i, c.Admits v.place v.block) →
        v ∈ inputs.visits i → c.Writes P v.block → ∃ s ∈ sockets, inputs.HasAt c P s
  | .nil, _, _, _, _, hv, _ => by simp [Inputs.visits] at hv
  | .cons s t others, hu, hnext, hsockets, hadmits, hv, hw => by
    obtain ⟨rest, rfl, ht, ho⟩ := hu
    simp only [Inputs.visits, List.forall_mem_append] at hadmits
    rw [List.nodup_cons] at hsockets
    rw [List.mem_cons, not_or] at hnext
    rcases List.mem_append.mp hv with hv | hv
    · exact ⟨s, List.mem_cons_self, .first hP (Ne.symm hnext.1) (ht.has hP hadmits.1 hv hw)⟩
    · obtain ⟨s', hs', hat⟩ := ho.has hP hnext.2 hsockets.2 hadmits.2 hv hw
      refine ⟨s', List.mem_cons_of_mem s hs', .later ?_ hat⟩
      rintro rfl
      exact hsockets.1 hs'

end

section Forest

variable {c : Context} {P : String → Prop} {roots : List String} {trees : List Tree}

theorem Tree.Has.rootText {t : Tree} {place : Place} (h : t.Has c P place) : P (t.rootText c place) := by
  cases place with
  | operand =>
    obtain ⟨code, order, hcode, hPcode⟩ := h.operand rfl
    simpa only [Tree.rootText, hcode, Option.map_some, Option.getD_some] using hPcode
  | top | chain => exact h.chain (by simp)

theorem UnfoldRoots.has (hP : Lasting P) (h : UnfoldRoots c roots trees) {v : Visit}
    (hw : c.Writes P v.block) : ∀ i, (∀ v ∈ forestVisits c i roots trees, c.Admits v.place v.block) →
      v ∈ forestVisits c i roots trees →
        ∃ text ∈ List.zipWith (fun id tree => tree.rootText c (c.rootPlace id)) roots trees, P text := by
  induction h with
  | nil => simp [forestVisits]
  | @cons root tree roots trees ht _ ih =>
    intro i hadmits hv
    simp only [forestVisits, List.forall_mem_append] at hadmits
    rcases List.mem_append.mp hv with hv | hv
    · exact ⟨_, List.mem_cons_self, (ht.has hP hadmits.1 hv hw).rootText⟩
    · obtain ⟨text, htext, hPtext⟩ := ih (i + 1) hadmits.2 hv
      exact ⟨text, List.mem_cons_of_mem _ htext, hPtext⟩

/-- The blocks that were entered on the way to a program are those of the trees of its roots. -/
theorem visit_of_entered {text id : String} {b : Block} (h : generate c roots = .ok text)
    (hid : id ∈ entered c roots) (hb : c.workspace.get? id = some b) :
    ∃ t trees v, FoundForest c 0 roots {} t trees ∧ v ∈ forestVisits c 0 roots trees ∧ v.block = b := by
  obtain ⟨texts, t, ho, -⟩ := pass_of_generate h
  obtain ⟨trees, hf, -⟩ := rootTexts_ok 0 ho
  have hwalked : ∀ v ∈ forestVisits c 0 roots trees, v.Walked c roots := hf.unfold.walked 0 (by simp)
  rw [hf.entered_eq ho, ← map_id_forestVisits hf.unfold 0] at hid
  obtain ⟨v, hv, rfl⟩ := List.mem_map.mp hid
  exact ⟨t, trees, v, hf, hv, Option.some.inj ((hwalked v hv).block.symm.trans hb)⟩

theorem admits_of_entered {text id : String} {b : Block} (h : generate c roots = .ok text)
    (hid : id ∈ entered c roots) (hb : c.workspace.get? id = some b) : ∃ place, c.Admits place b := by
  obtain ⟨t, trees, v, hf, hv, rfl⟩ := visit_of_entered h hid hb
  exact ⟨v.place, hf.admitted v hv⟩

/-- A program has what one of its blocks is written with, apart from tidying. -/
theorem generate_has {text id : String} {b : Block} (hP : Lasting P) (h : generate c roots = .ok text)
    (hid : id ∈ entered c roots) (hb : c.workspace.get? id = some b) (hw : c.Writes P b) :
    ∃ header body, P body ∧ text = header ++ Text.tidy body := by
  obtain ⟨t, trees, v, hf, hv, rfl⟩ := visit_of_entered h hid hb
  obtain ⟨code, hcode, hPcode⟩ := hf.unfold.has hP hw 0 hf.admitted hv
  obtain ⟨l₁, l₂, hsplit⟩ := List.append_of_mem hcode
  obtain ⟨a, z, haround⟩ := intercalate_around "\n" (l₁.filter (· ≠ "")) (l₂.filter (· ≠ ""))
  refine ⟨_, _, ?_, (forestText_of_generate h hf.unfold).trans (forestText_eq_headerText c roots trees)⟩
  rw [hsplit, List.filter_append, List.filter_cons_of_pos (by simpa using hP.ne_empty code hPcode),
    haround]
  exact hP.surround a z code hPcode

end Forest

theorem lasting_quoted (q : Quotes) (y : String) :
    Lasting fun s => ∃ n, Quoted q n (fun _ : Unit => y) fun _ => s where
  surround a b s h := by
    obtain ⟨n, hq⟩ := h
    exact ⟨n, hq.surround a b⟩
  indented s h := by
    obtain ⟨n, hq⟩ := h
    exact ⟨n + 2, hq.indent 2⟩
  ne_empty s h := by
    obtain ⟨n, hq⟩ := h
    exact hq.ne_empty ()

/-- A piece of a block's own text that is on one line and has ink at both ends stands in the program. -/
theorem piece_of_entered {c : Context} {roots : List String} {text id : String} {b : Block} {q : Quotes}
    {y : String} (hy : '\n' ∉ y.toList) (h : generate c roots = .ok text) (hid : id ∈ entered c roots)
    (hb : c.workspace.get? id = some b)
    (hw : c.Writes (fun s => ∃ a z, s = a ++ (q.opening ++ y ++ q.closing) ++ z) b) :
    ∃ before after, text = before ++ (q.opening ++ y ++ q.closing) ++ after := by
  have hquoted : c.Writes (fun s => ∃ n, Quoted q n (fun _ : Unit => y) fun _ => s) b := by
    refine ⟨hw.1, fun chain operand r hr => ?_⟩
    obtain ⟨a, z, hcode⟩ := hw.2 chain operand r hr
    refine ⟨0, ?_⟩
    rw [hcode]
    exact (Quoted.refl q fun _ => y).surround a z
  obtain ⟨header, body, ⟨n, hbody⟩, rfl⟩ := generate_has (lasting_quoted q y) h hid hb hquoted
  obtain ⟨before, after, htidy⟩ := hbody.tidy
  have hkept : Text.settled n y = y := (Text.settled_eq_self_iff n y).mpr (.inl hy)
  refine ⟨header ++ before, after, ?_⟩
  rw [htidy (), hkept]
  simp only [String.append_assoc]

end BlockSketch.Program
