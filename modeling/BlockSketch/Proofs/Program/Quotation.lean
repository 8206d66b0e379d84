import BlockSketch.Proofs.Program.Linearity
import BlockSketch.Proofs.Program.Retexting
import BlockSketch.Proofs.Text.Quoting

namespace BlockSketch.Program

open Text (Quotes Quoted settled LinesTidy)

/-- What is written before and behind the text of a block. -/
def quotes? (typeId : String) : Option Quotes :=
  match typeId with
  | "arduino_serial_print" =>
    some ⟨"Serial.print(\"", "\");", by decide, by decide, by decide, by decide⟩
  | "arduino_serial_println" =>
    some ⟨"Serial.println(\"", "\");", by decide, by decide, by decide, by decide⟩
  | "arduino_text" => some ⟨"\"", "\"", by decide, by decide, by decide, by decide⟩
  | _ => none

/-- A block in a tree: how many slots for statements it is in, its id, and the block itself. -/
structure Standing where
  depth : Nat
  id : String
  block : Block

/-- Where a block stands, seen from the block that has its tree at the socket. -/
def Standing.below (s : Socket) (p : Standing) : Standing :=
  match s with
  | .statement _ => { p with depth := p.depth + 1 }
  | _ => p

def Standing.spelled (p : Standing) (u : Option String) : String :=
  builtinField (p.block.retext u) "TEXT"

mutual

/-- Where the blocks of a tree stand, in the order of the walk. -/
def Tree.standings : Tree → List Standing
  | .leaf => []
  | .node id b inputs next => ⟨0, id, b⟩ :: (inputs.standings ++ next.standings)

def Inputs.standings : Inputs → List Standing
  | .nil => []
  | .cons s t others => t.standings.map (Standing.below s) ++ others.standings

end

section Standings

theorem Standing.below_same (s : Socket) (p : Standing) :
    (p.below s).id = p.id ∧ (p.below s).block = p.block := by
  cases s <;> exact ⟨rfl, rfl⟩

mutual

theorem Tree.map_standings (r : Reference) (place : Place) : ∀ t : Tree,
    t.standings.map (fun p => (p.id, p.block)) = (t.visits r place).map fun v => (v.id, v.block)
  | .leaf => rfl
  | .node id b inputs next => by
    simp [Tree.standings, Tree.visits, Inputs.map_standings id inputs,
      Tree.map_standings (.link id .next) .chain next]

theorem Inputs.map_standings (id : String) : ∀ inputs : Inputs,
    inputs.standings.map (fun p => (p.id, p.block)) = (inputs.visits id).map fun v => (v.id, v.block)
  | .nil => rfl
  | .cons s t others => by
    have hfirst := Tree.map_standings (.link id s) (placeAt s) t
    have hbelow : (t.standings.map (Standing.below s)).map (fun p => (p.id, p.block)) =
        t.standings.map fun p => (p.id, p.block) := by
      rw [List.map_map]
      refine List.map_congr_left fun p _ => ?_
      simp only [Function.comp_apply, (p.below_same s).1, (p.below_same s).2]
    simp only [Inputs.standings, Inputs.visits, List.map_append, hbelow, hfirst,
      Inputs.map_standings id others]

end

theorem Tree.map_id_standings (t : Tree) : t.standings.map Standing.id = t.ids := by
  have hmap := congrArg (List.map Prod.fst) (t.map_standings (.root 0) .top)
  rw [← t.map_id_visits (.root 0) .top]
  simpa [Function.comp_def] using hmap

theorem Inputs.map_id_standings (inputs : Inputs) : inputs.standings.map Standing.id = inputs.ids := by
  have hmap := congrArg (List.map Prod.fst) (inputs.map_standings "")
  rw [← inputs.map_id_visits ""]
  simpa [Function.comp_def] using hmap

theorem UnfoldRoots.map_standings {c : Context} {roots : List String} {trees : List Tree}
    (h : UnfoldRoots c roots trees) :
    ∀ i, (trees.flatMap Tree.standings).map (fun p => (p.id, p.block)) =
      (forestVisits c i roots trees).map fun v => (v.id, v.block) := by
  induction h with
  | nil => exact fun _ => rfl
  | @cons root tree _ _ _ _ ih =>
    intro i
    simp only [List.flatMap_cons, List.map_append, forestVisits, ih (i + 1),
      tree.map_standings (.root i) (c.rootPlace root)]

theorem UnfoldRoots.get?_of_standing {c : Context} {roots : List String} {trees : List Tree}
    (h : UnfoldRoots c roots trees) {p : Standing} (hp : p ∈ trees.flatMap Tree.standings) :
    c.workspace.get? p.id = some p.block := by
  have hwalked : ∀ v ∈ forestVisits c 0 roots trees, v.Walked c roots := h.walked 0 (by simp)
  have hmem : (p.id, p.block) ∈ (forestVisits c 0 roots trees).map fun v => (v.id, v.block) :=
    h.map_standings 0 ▸ List.mem_map_of_mem hp
  obtain ⟨v, hv, he⟩ := List.mem_map.mp hmem
  have hblock := (hwalked v hv).block
  rw [Prod.mk.injEq] at he
  rwa [he.1, he.2] at hblock

end Standings

section Quoting

variable {w : Workspace} {p : Standing} {q : Quotes}

/-- In a tree at a place the text of a block stands between its quotes, whatever it is. -/
structure Tree.Shows (w : Workspace) (p : Standing) (q : Quotes) (place : Place) (t : Tree) :
    Prop where
  operand : place = .operand → ∃ code order, Quoted q (2 * p.depth) p.spelled code ∧
    ∀ u, (t.retext p.id u).operand (builtinContext (w.retext p.id u)) = some (code u, order)
  chain : place ≠ .operand → Quoted q (2 * p.depth) p.spelled fun u =>
    (t.retext p.id u).chainText (builtinContext (w.retext p.id u))

/-- The same for the inputs of a block: the text stands at one of the sockets, and what stands at the
others does not depend on it. -/
structure Inputs.Shows (w : Workspace) (p : Standing) (q : Quotes) (s : Socket) (inputs : Inputs) :
    Prop where
  slot : ∀ shape outer, Quoted q (2 * p.depth) p.spelled fun u => slotText shape outer
    ((inputs.retext p.id u).chainText (builtinContext (w.retext p.id u)))
    ((inputs.retext p.id u).operand (builtinContext (w.retext p.id u))) s
  others : ∀ u s', s' ≠ s →
    (inputs.retext p.id u).chainText (builtinContext (w.retext p.id u)) s' =
      inputs.chainText (builtinContext w) s' ∧
    (inputs.retext p.id u).operand (builtinContext (w.retext p.id u)) s' =
      inputs.operand (builtinContext w) s'

/-- The template of a block that has a text. -/
theorem rule_of_quotes {typeId : String} (h : quotes? typeId = some q) :
    ∃ shape rule, Arduino.catalogue.shape? typeId = some shape ∧
      Rules.builtin.get? typeId = some rule ∧
      ((∀ m field text, rule.render m field text =
          .statement (q.opening ++ field "TEXT" ++ q.closing ++ "\n")) ∨
        ∀ m field text, rule.render m field text =
          .value (q.opening ++ field "TEXT" ++ q.closing) .atomic) := by
  unfold quotes? at h
  split at h
  · cases h
    refine ⟨_, .serialPrint, rfl, rfl, .inl fun m field text => ?_⟩
    simp only [Rule.render, String.append_assoc, String.reduceAppend]
  · cases h
    refine ⟨_, .serialPrintln, rfl, rfl, .inl fun m field text => ?_⟩
    simp only [Rule.render, String.append_assoc, String.reduceAppend]
  · cases h
    exact ⟨_, .text, rfl, rfl, .inr fun _ _ _ => rfl⟩
  · cases h

theorem blockText_retext {b : Block} {shape : Shape} {rule : Rule} (hen : b.enabled = true)
    (hs : Arduino.catalogue.shape? b.typeId = some shape)
    (hr : Rules.builtin.get? b.typeId = some rule) (w : Workspace) (u : Option String)
    (chain : Socket → String) (operand : Socket → Option (String × Order)) :
    ∃ text, blockText (builtinContext w) (b.retext u) chain operand =
      some (rule.render b.mutation (builtinField (b.retext u)) text) := by
  obtain ⟨fields, hb⟩ := b.retext_same u
  have hfield : builtinField { b with fields := fields } = fieldOf shape { b with fields := fields } := by
    funext name
    simp only [builtinField, hs]
  rw [hb, hfield]
  unfold blockText
  rw [if_pos hen]
  simp only [builtinContext, hs, hr]
  exact ⟨_, rfl⟩

/-- A block with a text is written as its quotes say, and what it is written as suits its place. -/
theorem blockText_of_quotes {b : Block} {place : Place} (hadmits : (builtinContext w).Admits place b)
    (hen : b.enabled = true) (hq : quotes? b.typeId = some q) :
    (place ≠ .operand ∧ ∀ w u chain operand, blockText (builtinContext w) (b.retext u) chain operand =
      some (.statement (q.opening ++ builtinField (b.retext u) "TEXT" ++ q.closing ++ "\n"))) ∨
    (place = .operand ∧ ∀ w u chain operand, blockText (builtinContext w) (b.retext u) chain operand =
      some (.value (q.opening ++ builtinField (b.retext u) "TEXT" ++ q.closing) .atomic)) := by
  obtain ⟨shape, rule, hs, hr, hrender⟩ := rule_of_quotes hq
  obtain ⟨-, rule', -, hr', -, hout, -⟩ := hadmits hen
  obtain rfl : rule = rule' := Option.some.inj (hr.symm.trans hr')
  have houtput := rule.output_render b.mutation (builtinField b) fun _ => ""
  rcases hrender with hrender | hrender
  · refine .inl ⟨?_, fun w u chain operand => ?_⟩
    · rintro rfl
      rw [hrender, hout] at houtput
      cases houtput
    · obtain ⟨text, htext⟩ := blockText_retext hen hs hr w u chain operand
      rw [htext, hrender]
  · refine .inr ⟨?_, fun w u chain operand => ?_⟩
    · rw [hrender, hout] at houtput
      cases place with
      | operand => rfl
      | top | chain => cases houtput
    · obtain ⟨text, htext⟩ := blockText_retext hen hs hr w u chain operand
      rw [htext, hrender]

theorem nodup_reads (c : Context) (b : Block) : (c.reads b).Nodup := by
  unfold Context.reads
  split
  · split
    · exact Rule.nodup_sockets _ _
    · exact List.nodup_nil
  · exact List.nodup_nil

theorem statementText_withCode {r : Rendered} (h : r.output = .statement) (code : String) :
    statementText (some (r.withCode code)) = code := by
  cases r with
  | statement => rfl
  | value => cases h

theorem operandText?_withCode {r : Rendered} (h : r.output = .value) :
    ∃ order, ∀ code, code ≠ "" → operandText? (some (r.withCode code)) = some (code, order) := by
  cases r with
  | statement => cases h
  | value code order => exact ⟨order, fun _ hne => if_neg hne⟩

variable {place : Place} {i : String} {b : Block} {inputs : Inputs} {next : Tree}

theorem Tree.Shows.own (hadmits : (builtinContext w).Admits place b) (hen : b.enabled = true)
    (hq : quotes? b.typeId = some q) (hnext : i ∉ next.ids) :
    (Tree.node i b inputs next).Shows w ⟨0, i, b⟩ q place := by
  have hself (u : Option String) : retextAt i u i b = b.retext u := if_pos rfl
  have hquoted := Quoted.refl q (Standing.spelled ⟨0, i, b⟩)
  rcases blockText_of_quotes hadmits hen hq with ⟨hp, hblock⟩ | ⟨hp, hblock⟩
  · refine ⟨fun he => absurd he hp, fun _ => ?_⟩
    refine ((hquoted.append_right "\n").append_right (next.chainText (builtinContext w))).congr
      fun u => ?_
    simp only [Tree.retext, Tree.chainText, hself, hblock, statementText]
    rw [← (next.alike_retext u hnext).chain]
    rfl
  · refine ⟨fun _ => ⟨_, .atomic, hquoted, fun u => ?_⟩, fun hne => absurd hp hne⟩
    simp only [Tree.retext, Tree.operand, hself, hblock, operandText?]
    exact if_neg (hquoted.ne_empty u)

theorem Tree.Shows.follow (hp : place ≠ .operand) (hi : p.id ≠ i) (hinputs : p.id ∉ inputs.ids)
    (h : next.Shows w p q .chain) : (Tree.node i b inputs next).Shows w p q place := by
  refine ⟨fun he => absurd he hp, fun _ => ?_⟩
  refine ((h.chain (by simp)).append_left (statementText (blockText (builtinContext w) b
    (inputs.chainText (builtinContext w)) (inputs.operand (builtinContext w))))).congr fun u => ?_
  have hsame : retextAt p.id u i b = b := if_neg hi.symm
  have halike := inputs.alike_retext (w := w) u hinputs
  simp only [Tree.retext, Tree.chainText, hsame, ← halike.chain, ← halike.operand]
  rfl

/-- What a block is written as, if its template has the text in what stands at one of its sockets. -/
theorem Inputs.Shows.blockText {s : Socket} (hadmits : (builtinContext w).Admits place b)
    (hs : s ∈ (builtinContext w).reads b) (h : inputs.Shows w p q s) :
    ∃ (r : Rendered) (code : Option String → String), r.output = place.output ∧
      Quoted q (2 * p.depth) p.spelled code ∧
      ∀ u, Program.blockText (builtinContext (w.retext p.id u)) b
        ((inputs.retext p.id u).chainText (builtinContext (w.retext p.id u)))
        ((inputs.retext p.id u).operand (builtinContext (w.retext p.id u))) =
          some (r.withCode (code u)) := by
  have hen : b.enabled = true := by
    by_contra hoff
    rw [Context.reads, if_neg hoff] at hs
    simp at hs
  obtain ⟨shape, rule, hshape, hrule, -, hout, -, hfault⟩ := hadmits hen
  have hsocket : s ∈ rule.sockets b.mutation := by
    simpa only [Context.reads, if_pos hen, hrule] using hs
  have hoperator := ((Rule.fault?_eq_none_iff shape b rule).mp hfault).2
  -- What stands at the sockets before the change, and after it.
  let outer := rule.outer (fieldOf shape b)
  let old := slotText shape outer (inputs.chainText (builtinContext w))
    (inputs.operand (builtinContext w))
  let new := fun u => slotText shape outer
    ((inputs.retext p.id u).chainText (builtinContext (w.retext p.id u)))
    ((inputs.retext p.id u).operand (builtinContext (w.retext p.id u)))
  have hagree (u : Option String) : AgreeOff s old (new u) := by
    intro s' hs'
    obtain ⟨hchain, hoperand⟩ := h.others u s' hs'
    cases s' <;> simp only [old, new, slotText, hchain, hoperand]
  obtain ⟨a, z, honce⟩ : ∃ a z, ∀ text, AgreeOff s old text →
      rule.render b.mutation (fieldOf shape b) text =
        (rule.render b.mutation (fieldOf shape b) old).withCode (a ++ text s ++ z) :=
    Rule.render_once hsocket hoperator
  refine ⟨rule.render b.mutation (fieldOf shape b) old, fun u => a ++ new u s ++ z, ?_,
    (h.slot shape outer).surround a z, fun u => ?_⟩
  · rw [rule.output_render, hout]
  · have hshape' : (builtinContext (w.retext p.id u)).catalogue.shape? b.typeId = some shape := hshape
    have hrule' : (builtinContext (w.retext p.id u)).rules.get? b.typeId = some rule := hrule
    rw [← honce (new u) (hagree u), Program.blockText, if_pos hen]
    simp only [hshape', hrule']
    rfl

theorem Tree.Shows.input {s : Socket} (hadmits : (builtinContext w).Admits place b)
    (hs : s ∈ (builtinContext w).reads b) (hi : p.id ≠ i) (hnext : p.id ∉ next.ids)
    (h : inputs.Shows w p q s) : (Tree.node i b inputs next).Shows w p q place := by
  obtain ⟨r, code, hout, hquoted, hblock⟩ := h.blockText hadmits hs
  have hsame (u : Option String) : retextAt p.id u i b = b := if_neg hi.symm
  refine ⟨?_, fun hp => ?_⟩
  · rintro rfl
    obtain ⟨order, horder⟩ := operandText?_withCode hout
    refine ⟨code, order, hquoted, fun u => ?_⟩
    simp only [Tree.retext, Tree.operand, hsame, hblock]
    exact horder _ (hquoted.ne_empty u)
  · have hstatement : r.output = .statement := by
      cases place with
      | operand => exact absurd rfl hp
      | top | chain => exact hout
    refine (hquoted.append_right (next.chainText (builtinContext w))).congr fun u => ?_
    simp only [Tree.retext, Tree.chainText, hsame, hblock, statementText_withCode hstatement]
    rw [← (next.alike_retext u hnext).chain]

variable {s : Socket} {t : Tree} {others : Inputs}

theorem Inputs.Shows.first (hs : s ≠ .next) (ht : t.Shows w p q (placeAt s)) (ho : p.id ∉ others.ids) :
    (Inputs.cons s t others).Shows w (p.below s) q s := by
  have hothers (u : Option String) (s' : Socket) (hs' : s' ≠ s) :
      ((Inputs.cons s t others).retext p.id u).chainText (builtinContext (w.retext p.id u)) s' =
        (Inputs.cons s t others).chainText (builtinContext w) s' ∧
      ((Inputs.cons s t others).retext p.id u).operand (builtinContext (w.retext p.id u)) s' =
        (Inputs.cons s t others).operand (builtinContext w) s' := by
    have halike := others.alike_retext (w := w) u ho
    simp only [Inputs.retext, Inputs.chainText, Inputs.operand, if_neg hs', halike.chain, halike.operand,
      and_self]
  cases s with
  | next => exact absurd rfl hs
  | statement slot =>
    refine ⟨fun shape outer => ?_, hothers⟩
    refine ((ht.chain (by simp [placeAt])).indent 2).congr fun u => ?_
    simp only [Standing.below, Inputs.retext, slotText, Inputs.chainText, if_true]
    rfl
  | value slot =>
    refine ⟨fun shape outer => ?_, hothers⟩
    obtain ⟨code, order, hquoted, hcode⟩ := ht.operand rfl
    have hslot (u : Option String) : slotText shape outer
        (((Inputs.cons (.value slot) t others).retext p.id u).chainText
          (builtinContext (w.retext p.id u)))
        (((Inputs.cons (.value slot) t others).retext p.id u).operand
          (builtinContext (w.retext p.id u))) (.value slot) = outer.wrap (code u) order := by
      simp only [Inputs.retext, slotText, Inputs.operand, if_true, hcode]
    cases hparens : outer.needsParens order with
    | true =>
      refine (hquoted.surround "(" ")").congr fun u => (hslot u).trans ?_
      simp only [Order.wrap, hparens, if_true]
    | false =>
      refine hquoted.congr fun u => (hslot u).trans ?_
      simp only [Order.wrap, hparens, Bool.false_eq_true, if_false]

theorem Inputs.Shows.later {s₀ : Socket} (hs : s ≠ s₀) (ht : p.id ∉ t.ids)
    (h : others.Shows w p q s) : (Inputs.cons s₀ t others).Shows w p q s := by
  refine ⟨fun shape outer => (h.slot shape outer).congr fun u => ?_, fun u s' hs' => ?_⟩
  · cases s <;> simp only [slotText, Inputs.retext, Inputs.chainText, Inputs.operand, if_neg hs]
  · have halike := t.alike_retext (w := w) u ht
    simp only [Inputs.retext, Inputs.chainText, Inputs.operand, ← halike.chain, ← halike.operand,
      h.others u s' hs', and_self]

mutual

/-- Every block with a text shows it, wherever it stands in a tree. -/
theorem Tree.Unfolds.shows {w : Workspace} {q : Quotes} {r : Reference} {place : Place}
    {at? : Option String} : ∀ {t : Tree} {p : Standing}, t.Unfolds (builtinContext w) place at? →
      (∀ v ∈ t.visits r place, (builtinContext w).Admits v.place v.block) → t.ids.Nodup →
      p ∈ t.standings → p.block.enabled = true → quotes? p.block.typeId = some q →
        t.Shows w p q place
  | .leaf, _, _, _, _, hp, _, _ => by simp [Tree.standings] at hp
  | .node i b inputs next, p, hu, hadmits, hn, hp, hen, hq => by
    obtain ⟨-, -, hi, hnext⟩ := hu
    have hown : (builtinContext w).Admits place b :=
      hadmits ⟨r, place, i, b⟩ List.mem_cons_self
    have hadmitsInputs : ∀ v ∈ inputs.visits i, (builtinContext w).Admits v.place v.block :=
      fun v hv => hadmits v (by simp [Tree.visits, hv])
    have hadmitsNext : ∀ v ∈ next.visits (.link i .next) .chain,
        (builtinContext w).Admits v.place v.block :=
      fun v hv => hadmits v (by simp [Tree.visits, hv])
    simp only [Tree.ids, List.nodup_cons, List.nodup_append, List.mem_append, not_or] at hn
    obtain ⟨⟨hinone, hnone⟩, hin, hnn, hapart⟩ := hn
    -- No block is in two parts of the tree, so that the other parts stay as they are.
    simp only [Tree.standings, List.mem_cons, List.mem_append] at hp
    rcases hp with rfl | hp | hp
    · exact .own hown hen hq hnone
    · have hid : p.id ∈ inputs.ids := inputs.map_id_standings ▸ List.mem_map_of_mem hp
      obtain ⟨s, hs, hshows⟩ :=
        hi.shows (next_not_mem_reads _ b) (nodup_reads _ b) hadmitsInputs hin hp hen hq
      exact .input hown hs (fun he => hinone (he ▸ hid)) (fun hm => hapart _ hid _ hm rfl) hshows
    · have hid : p.id ∈ next.ids := next.map_id_standings ▸ List.mem_map_of_mem hp
      have hplace : place ≠ .operand := by
        rintro rfl
        cases next with
        | leaf => simp [Tree.standings] at hp
        | node => simp [Tree.Unfolds, Place.next?] at hnext
      refine .follow hplace (fun he => hnone (he ▸ hid)) (fun hm => hapart _ hm _ hid rfl) ?_
      exact hnext.shows hadmitsNext hnn hp hen hq

theorem Inputs.Unfold.shows {w : Workspace} {q : Quotes} {i : String} {b : Block} {sockets : List Socket} :
    ∀ {inputs : Inputs} {p : Standing}, inputs.Unfold (builtinContext w) b sockets →
      .next ∉ sockets → sockets.Nodup →
      (∀ v ∈ inputs.visits i, (builtinContext w).Admits v.place v.block) → inputs.ids.Nodup →
      p ∈ inputs.standings → p.block.enabled = true → quotes? p.block.typeId = some q →
        ∃ s ∈ sockets, inputs.Shows w p q s
  | .nil, _, _, _, _, _, _, hp, _, _ => by simp [Inputs.standings] at hp
  | .cons s t others, p, hu, hnext, hsockets, hadmits, hn, hp, hen, hq => by
    obtain ⟨rest, rfl, ht, ho⟩ := hu
    simp only [Inputs.visits, List.forall_mem_append] at hadmits
    simp only [Inputs.ids, List.nodup_append] at hn
    obtain ⟨htn, hon, hapart⟩ := hn
    rw [List.nodup_cons] at hsockets
    rw [List.mem_cons, not_or] at hnext
    simp only [Inputs.standings, List.mem_append, List.mem_map] at hp
    rcases hp with ⟨p, hp, rfl⟩ | hp
    · rw [(p.below_same s).2] at hen hq
      have hid : p.id ∈ t.ids := t.map_id_standings ▸ List.mem_map_of_mem hp
      have hshows := ht.shows hadmits.1 htn hp hen hq
      exact ⟨s, List.mem_cons_self, .first (Ne.symm hnext.1) hshows fun hm => hapart _ hid _ hm rfl⟩
    · have hid : p.id ∈ others.ids := others.map_id_standings ▸ List.mem_map_of_mem hp
      obtain ⟨s', hs', hshows⟩ := ho.shows hnext.2 hsockets.2 hadmits.2 hon hp hen hq
      refine ⟨s', List.mem_cons_of_mem s hs', .later ?_ (fun hm => hapart _ hm _ hid rfl) hshows⟩
      rintro rfl
      exact hsockets.1 hs'

end

theorem Tree.Shows.rootText (h : t.Shows w p q place) : Quoted q (2 * p.depth) p.spelled fun u =>
    (t.retext p.id u).rootText (builtinContext (w.retext p.id u)) place := by
  cases place with
  | operand =>
    obtain ⟨code, order, hquoted, hcode⟩ := h.operand rfl
    refine hquoted.congr fun u => ?_
    simp only [Tree.rootText, hcode, Option.map_some, Option.getD_some]
  | top | chain => exact h.chain (by simp)

/-- Roots that do not lead to the block have the same texts as before. -/
theorem rootTexts_retext {id : String} (u : Option String) {roots : List String} {trees : List Tree}
    (h : id ∉ trees.flatMap Tree.ids) :
    List.zipWith (fun i tree => tree.rootText (builtinContext (w.retext id u))
        ((builtinContext w).rootPlace i)) roots (trees.map (Tree.retext id u)) =
      List.zipWith (fun i tree => tree.rootText (builtinContext w) ((builtinContext w).rootPlace i))
        roots trees := by
  induction trees generalizing roots with
  | nil => simp
  | cons t trees ih =>
    rw [List.flatMap_cons, List.mem_append, not_or] at h
    cases roots with
    | nil => rfl
    | cons root roots =>
      have hfirst := (t.alike_retext (w := w) u h.1).rootText ((builtinContext w).rootPlace root)
      rw [List.map_cons, List.zipWith_cons_cons, List.zipWith_cons_cons, hfirst, ih h.2]

/-- The text of one of the roots shows the text of the block, and the others do not depend on it. -/
theorem UnfoldRoots.shows {roots : List String} {trees : List Tree}
    (h : UnfoldRoots (builtinContext w) roots trees) (hen : p.block.enabled = true)
    (hq : quotes? p.block.typeId = some q) :
    ∀ i, (∀ v ∈ forestVisits (builtinContext w) i roots trees,
        (builtinContext w).Admits v.place v.block) →
      (trees.flatMap Tree.ids).Nodup → p ∈ trees.flatMap Tree.standings →
        ∃ l₁ l₂ text, Quoted q (2 * p.depth) p.spelled text ∧
          ∀ u, List.zipWith (fun id tree => tree.rootText (builtinContext (w.retext p.id u))
            ((builtinContext (w.retext p.id u)).rootPlace id)) roots
              (trees.map (Tree.retext p.id u)) = l₁ ++ text u :: l₂ := by
  induction h with
  | nil => simp
  | @cons root tree roots trees ht hr ih =>
    intro i hadmits hn hp
    simp only [forestVisits, List.forall_mem_append] at hadmits
    simp only [List.flatMap_cons, List.nodup_append] at hn
    obtain ⟨htn, hrn, hapart⟩ := hn
    simp only [rootPlace_retext, List.map_cons, List.zipWith_cons_cons] at ih ⊢
    rcases List.mem_append.mp hp with hp | hp
    · have hid : p.id ∈ tree.ids := tree.map_id_standings ▸ List.mem_map_of_mem hp
      have hshows := ht.shows hadmits.1 htn hp hen hq
      have hrest : p.id ∉ trees.flatMap Tree.ids := fun hm => hapart _ hid _ hm rfl
      refine ⟨[], List.zipWith (fun id tree => tree.rootText (builtinContext w)
        ((builtinContext w).rootPlace id)) roots trees, _, hshows.rootText, fun u => ?_⟩
      rw [rootTexts_retext u hrest, List.nil_append]
    · have hid : p.id ∈ trees.flatMap Tree.ids := by
        obtain ⟨t, ht, hp⟩ := List.mem_flatMap.mp hp
        exact List.mem_flatMap.mpr ⟨t, ht, t.map_id_standings ▸ List.mem_map_of_mem hp⟩
      obtain ⟨l₁, l₂, text, hquoted, htexts⟩ := ih (i + 1) hadmits.2 hrn hp
      have hfirst (u : Option String) := tree.alike_retext (w := w) u fun hm => hapart _ hm _ hid rfl
      refine ⟨tree.rootText (builtinContext w) ((builtinContext w).rootPlace root) :: l₁, l₂, text,
        hquoted, fun u => ?_⟩
      rw [htexts u, (hfirst u).rootText]
      rfl

theorem intercalate_around (sep : String) (l₁ l₂ : List String) :
    ∃ a z, ∀ x, String.intercalate sep (l₁ ++ x :: l₂) = a ++ x ++ z := by
  induction l₁ with
  | nil =>
    cases l₂ with
    | nil => exact ⟨"", "", by simp⟩
    | cons y l₂ =>
      refine ⟨"", sep ++ String.intercalate sep (y :: l₂), fun x => ?_⟩
      rw [List.nil_append, String.intercalate_cons_cons, String.empty_append, String.append_assoc]
  | cons y l₁ ih =>
    obtain ⟨a, z, h⟩ := ih
    refine ⟨y ++ sep ++ a, z, fun x => ?_⟩
    rw [List.cons_append, String.intercalate_cons_of_ne_nil (by simp), h x]
    simp only [String.append_assoc]

theorem forestText_eq_headerText (c : Context) (roots : List String) (trees : List Tree) :
    forestText c roots trees = headerText (Table.ofList (trees.flatMap (Tree.hoisted c))).values ++
      Text.tidy (String.intercalate "\n" ((List.zipWith (fun id tree =>
        tree.rootText c (c.rootPlace id)) roots trees).filter (· ≠ ""))) :=
  rfl

/-- There is one place in the program for the text of the block. -/
theorem forestText_shows {roots : List String} {trees : List Tree}
    (h : UnfoldRoots (builtinContext w) roots trees)
    (hadmits : ∀ v ∈ forestVisits (builtinContext w) 0 roots trees,
      (builtinContext w).Admits v.place v.block)
    (hn : (trees.flatMap Tree.ids).Nodup) (hp : p ∈ trees.flatMap Tree.standings)
    (hen : p.block.enabled = true) (hq : quotes? p.block.typeId = some q) :
    ∃ before after, ∀ u, forestText (builtinContext (w.retext p.id u)) roots
      (trees.map (Tree.retext p.id u)) =
        before ++ q.opening ++ settled (2 * p.depth) (p.spelled u) ++ q.closing ++ after := by
  obtain ⟨l₁, l₂, text, hquoted, htexts⟩ := h.shows hen hq 0 hadmits hn hp
  obtain ⟨a, z, haround⟩ := intercalate_around "\n" (l₁.filter (· ≠ "")) (l₂.filter (· ≠ ""))
  obtain ⟨before, after, htidy⟩ := (hquoted.surround a z).tidy
  have hheader (u : Option String) : (trees.map (Tree.retext p.id u)).flatMap
      (Tree.hoisted (builtinContext (w.retext p.id u))) =
        trees.flatMap (Tree.hoisted (builtinContext w)) := by
    simp only [List.flatMap_map, Tree.hoisted_retext]
  have hbody (u : Option String) :
      Text.tidy (String.intercalate "\n" ((l₁ ++ text u :: l₂).filter (· ≠ ""))) =
        before ++ q.opening ++ settled (2 * p.depth) (p.spelled u) ++ q.closing ++ after := by
    rw [List.filter_append, List.filter_cons_of_pos (by simpa using hquoted.ne_empty u), haround]
    exact htidy u
  refine ⟨headerText (Table.ofList (trees.flatMap (Tree.hoisted (builtinContext w)))).values ++ before,
    after, fun u => ?_⟩
  rw [forestText_eq_headerText, hheader, htexts, hbody]
  simp only [String.append_assoc]

theorem Standing.spelled_some (hq : quotes? p.block.typeId = some q) (s : String) :
    p.spelled (some s) = s := by
  have hall : ∀ e ∈ Arduino.types, (quotes? e.1).isSome = true →
      (e.2.field? "TEXT").any isTextField = true := by
    decide
  obtain ⟨shape, -, hs, -⟩ := rule_of_quotes hq
  have hfield := hall _ (Arduino.mem_types hs) (by simp [hq])
  cases hspec : shape.field? "TEXT" with
  | none => simp [hspec] at hfield
  | some spec =>
    simp only [hspec, Option.any_some] at hfield
    have hread : readField shape (p.block.retext (some s)) "TEXT" = .ok s := by
      simp only [readField, hspec, Block.retext, Table.get?_insert_self, kind_of_isTextField hfield]
      rfl
    have hs' : Arduino.catalogue.shape? (p.block.retext (some s)).typeId = some shape := hs
    simp only [spelled, builtinField, hs', fieldOf, hread]

end Quoting

/-- There is one place in a program for the text of each enabled block that is written with quotes.
What stands there depends only on the text and on how many slots for statements the block is in. -/
theorem text_between_quotes (w : Workspace) (roots : List String) (text : String)
    (h : generate (builtinContext w) roots = .ok text) :
    ∃ trees, UnfoldRoots (builtinContext w) roots trees ∧
      (trees.flatMap Tree.standings).map Standing.id = entered (builtinContext w) roots ∧
      ∀ p ∈ trees.flatMap Tree.standings, w.get? p.id = some p.block ∧
        ∀ q, p.block.enabled = true → quotes? p.block.typeId = some q → ∃ before after,
          text = before ++ q.opening ++ settled (2 * p.depth) (builtinField p.block "TEXT") ++
            q.closing ++ after ∧
          ∀ s, (settled (2 * p.depth) s = s ↔
              '\n' ∉ s.toList ∨ p.depth = 0 ∧ LinesTidy s.toList) ∧
            ∃ w', w.setField p.id "TEXT" (.text s) = .ok w' ∧
              generate (builtinContext w') roots =
                .ok (before ++ q.opening ++ settled (2 * p.depth) s ++ q.closing ++ after) := by
  obtain ⟨texts, t, ho, -⟩ := pass_of_generate h
  obtain ⟨trees, hf, -⟩ := rootTexts_ok 0 ho
  have hids : (trees.flatMap Tree.standings).map Standing.id = trees.flatMap Tree.ids := by
    simp only [List.map_flatMap, Tree.map_id_standings]
  refine ⟨trees, hf.unfold, hids.trans (hf.entered_eq ho).symm, fun p hp => ?_⟩
  have hblock : w.get? p.id = some p.block := hf.unfold.get?_of_standing hp
  refine ⟨hblock, fun q hen hq => ?_⟩
  obtain ⟨before, after, htext⟩ := forestText_shows hf.unfold hf.admitted hf.leaves.nodup hp hen hq
  refine ⟨before, after, ?_, fun s => ⟨?_, _, Workspace.setField_text s hblock, ?_⟩⟩
  · have hsame := hf.generate_retext p.id none
    rw [htext none, Workspace.retext_none, h, Except.ok.injEq] at hsame
    exact hsame
  · have hzero : 2 * p.depth = 0 ↔ p.depth = 0 := by omega
    rw [Text.settled_eq_self_iff, hzero]
  · rw [hf.generate_retext p.id (some s), htext (some s), Standing.spelled_some hq]

def printing (s : String) : Block :=
  { id := "p", typeId := "arduino_serial_print", fields := Table.ofList [("TEXT", .text s)] }

def printingSetup : Block :=
  { id := "s", typeId := "arduino_setup", statements := Table.ofList [("SETUP", "p")] }

def printingContext : Context := builtinContext (Document.workspaceOf [printingSetup, printing "a\nb"])

def printingText : String := "void setup() \x7b\n  Serial.print(\"a\n  b\");\n\x7d\n"

def printingTree : Tree :=
  .node "s" printingSetup
    (.cons (.statement "SETUP") (.node "p" (printing "a\nb") .nil .leaf) .nil) .leaf

theorem generate_printing : generate printingContext ["s"] = .ok printingText := by
  have h : (generate printingContext ["s"]).toOption = some printingText := by decide +kernel
  exact eq_ok_of_toOption h

theorem unfoldRoots_printing : UnfoldRoots printingContext ["s"] [printingTree] :=
  .cons ⟨rfl, rfl, ⟨_, rfl, ⟨rfl, rfl, rfl, rfl⟩, rfl⟩, rfl⟩ .nil

/-- The second line is moved with the block, and so is that of any other text. -/
theorem text_between_quotes_printing :
    generate printingContext ["s"] = .ok printingText ∧ ∃ before after,
      printingText = before ++ "Serial.print(\"" ++ "a\n  b" ++ "\");" ++ after ∧
      ∃ w, printingContext.workspace.setField "p" "TEXT" (.text "c d\n\te") = .ok w ∧
        generate (builtinContext w) ["s"] =
          .ok (before ++ "Serial.print(\"" ++ "c d\n  \te" ++ "\");" ++ after) := by
  refine ⟨generate_printing, ?_⟩
  obtain ⟨trees, hunfold, -, hall⟩ := text_between_quotes _ ["s"] printingText generate_printing
  obtain rfl : trees = [printingTree] := hunfold.unique unfoldRoots_printing
  have hp : (⟨1, "p", printing "a\nb"⟩ : Standing) ∈ [printingTree].flatMap Tree.standings :=
    List.mem_cons_of_mem _ List.mem_cons_self
  obtain ⟨before, after, htext, hother⟩ := (hall _ hp).2 _ rfl rfl
  have hown : settled (2 * 1) (builtinField (printing "a\nb") "TEXT") = "a\n  b" := by decide +kernel
  have hnew : settled (2 * 1) "c d\n\te" = "c d\n  \te" := by decide +kernel
  rw [hown] at htext
  obtain ⟨-, w, hw, hg⟩ := hother "c d\n\te"
  rw [hnew] at hg
  exact ⟨before, after, htext, w, hw, hg⟩

/-- Texts with line feeds are not kept: in a slot for statements the second line is moved, and without one
a blank at the end of the first line is lost. -/
theorem feeds_not_kept :
    (∃ text, generate printingContext ["s"] = .ok text ∧ ¬ "a\nb".toList <:+: text.toList) ∧
      ∃ text, generate (builtinContext (Document.workspaceOf [printing "a \nb"])) ["p"] = .ok text ∧
        ¬ "a \nb".toList <:+: text.toList := by
  have hroot : (generate (builtinContext (Document.workspaceOf [printing "a \nb"])) ["p"]).toOption =
      some "Serial.print(\"a\nb\");\n" := by
    decide +kernel
  exact ⟨⟨printingText, generate_printing, by decide +kernel⟩, _, eq_ok_of_toOption hroot,
    by decide +kernel⟩

end BlockSketch.Program
