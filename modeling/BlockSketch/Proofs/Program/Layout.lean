import BlockSketch.Proofs.Program.Hoisting
import BlockSketch.Proofs.Program.Printing
import BlockSketch.Proofs.Text.Layout

namespace BlockSketch.Program

open Text (Row Rows Stack Laid braceDepth)

/-- The text can stand inside a line without changing where that line has to be. -/
def isPlain (s : String) : Bool := s.toList.all fun c => c != '\n' && c != '\x7b' && c != '\x7d'

def startsInk (s : String) : Bool := s.toList.head?.any fun c => !Text.isBlank c

def endsInk (s : String) : Bool := s.toList.getLast?.any fun c => !Text.isBlank c

@[simp] theorem isPlain_append (a b : String) : isPlain (a ++ b) = (isPlain a && isPlain b) := by
  simp [isPlain]

@[simp] theorem startsInk_append_iff (a b : String) :
    startsInk (a ++ b) = true ↔ startsInk a = true ∨ a = "" ∧ startsInk b = true := by
  unfold startsInk
  rw [String.toList_append]
  cases ha : a.toList with
  | nil =>
    have hempty : a = "" := by simpa using ha
    simp [hempty]
  | cons c r =>
    have hne : a ≠ "" := by
      rintro rfl
      simp at ha
    simp [hne]

theorem startsInk_append {a : String} (h : startsInk a = true) (b : String) :
    startsInk (a ++ b) = true := by
  unfold startsInk at h ⊢
  rw [String.toList_append]
  cases ha : a.toList with
  | nil => simp [ha] at h
  | cons c r => simpa [ha] using h

theorem endsInk_append (a : String) {b : String} (h : endsInk b = true) :
    endsInk (a ++ b) = true := by
  unfold endsInk at h ⊢
  rw [String.toList_append, List.getLast?_append]
  cases hb : b.toList.getLast? with
  | none => simp [hb] at h
  | some c => simpa [hb] using h

section Lines

variable {s : String}

theorem head_of_startsInk (h : startsInk s = true) :
    ∀ c, s.toList.head? = some c → Text.isBlank c = false := by
  intro c hc
  simpa [startsInk, hc] using h

theorem feed_of_isPlain (h : isPlain s = true) : '\n' ∉ s.toList := by
  intro hn
  have hc := List.all_eq_true.mp h _ hn
  simp at hc

theorem braceDepth_of_isPlain (h : isPlain s = true) (d : Nat) : braceDepth d s.toList = some d := by
  refine Text.braceDepth_of_no_brace (fun c hc => ?_) d
  have hplain := List.all_eq_true.mp h c hc
  simp only [Bool.and_eq_true, bne_iff_ne, ne_eq] at hplain
  exact ⟨hplain.1.2, hplain.2⟩

theorem row_of_ink {e : Nat} (hs : startsInk s = true) (he : endsInk s = true)
    (hd : braceDepth 0 s.toList = some e) (hf : '\n' ∉ s.toList) : Row 0 s.toList e := by
  refine ⟨⟨?_, ?_⟩, hd, hf⟩
  · cases hl : s.toList with
    | nil => simp [startsInk, hl] at hs
    | cons c r =>
      refine ⟨c, r, head_of_startsInk hs c (by simp [hl]), ?_⟩
      split_ifs <;> rfl
  · intro c hc
    simpa [endsInk, hc] using he

end Lines

/-- A text without line feeds and braces, and without blanks at its ends. -/
structure Inline (s : String) : Prop where
  plain : isPlain s = true
  starts : startsInk s = true
  ends : endsInk s = true

namespace Inline

variable {a b s : String}

theorem row (h : Inline s) : Row 0 s.toList 0 :=
  row_of_ink h.starts h.ends (braceDepth_of_isPlain h.plain 0) (feed_of_isPlain h.plain)

theorem ne_empty (h : Inline s) : s ≠ "" := by
  rintro rfl
  exact absurd h.starts (by decide)

theorem surround (ha : Inline a) (hs : isPlain s = true) (hb : Inline b) : Inline (a ++ s ++ b) :=
  ⟨by simp [ha.plain, hs, hb.plain], startsInk_append (startsInk_append ha.starts s) b,
    endsInk_append (a ++ s) hb.ends⟩

end Inline

/-- A text that is not empty and has neither blanks nor braces. -/
def isSolid (s : String) : Bool :=
  s != "" && s.toList.all fun c => !Text.isBlank c && c != '\x7b' && c != '\x7d'

theorem Inline.of_solid {s : String} (h : isSolid s = true) : Inline s := by
  simp only [isSolid, Bool.and_eq_true, bne_iff_ne, ne_eq, List.all_eq_true, Bool.not_eq_true'] at h
  obtain ⟨hne, hall⟩ := h
  have hne : s.toList ≠ [] := by simpa using hne
  refine ⟨?_, ?_, ?_⟩
  · refine List.all_eq_true.mpr fun c hc => ?_
    have hfeed : c ≠ '\n' := by
      rintro rfl
      simpa using (hall _ hc).1.1
    simp [hfeed, (hall c hc).1.2, (hall c hc).2]
  · obtain ⟨c, r, hl⟩ := List.exists_cons_of_ne_nil hne
    simp [startsInk, hl, (hall c (by simp [hl])).1.1]
  · have hlast := List.getLast?_eq_some_getLast hne
    simp [endsInk, hlast, (hall _ (List.getLast_mem hne)).1.1]

/-- A field whose text is solid, unless it is one of the two for free text. -/
def isNeatField (f : FieldSpec) : Bool :=
  match f.kind with
  | .number _ => true
  | .text => f.name == "TEXT" || f.name == "VAR"
  | .choice options => options.all fun o => isSolid o.2

/-- What is written for fields and for absent operands is solid, free text excepted. -/
def isNeatShape (shape : Shape) : Bool :=
  shape.fields.all isNeatField && shape.valueSlots.all (fun v => isSolid v.default) &&
    shape.arity.all fun a => isSolid a.conditionDefault

theorem isNeatShape_of_builtin {typeId : String} {shape : Shape}
    (h : Arduino.catalogue.shape? typeId = some shape) : isNeatShape shape = true := by
  have hall : Arduino.types.all (fun e => isNeatShape e.2) = true := by decide
  exact List.all_eq_true.mp hall _ (Arduino.mem_types h)

theorem isSolid_ofList {s : List Char} (hne : s ≠ [])
    (h : ∀ c ∈ s, c.isDigit = true ∨ c = '.' ∨ c = '-') : isSolid (String.ofList s) = true := by
  have hempty : String.ofList s ≠ "" := by simpa using hne
  simp only [isSolid, Bool.and_eq_true, bne_iff_ne, ne_eq, hempty, not_false_eq_true, true_and,
    List.all_eq_true, String.toList_ofList]
  intro c hc
  rcases h c hc with hd | rfl | rfl
  · have hbounds : 48 ≤ c.toNat ∧ c.toNat ≤ 57 := by
      simp only [Char.isDigit, Bool.and_eq_true, decide_eq_true_eq] at hd
      exact ⟨UInt32.le_iff_toNat_le.mp hd.1, UInt32.le_iff_toNat_le.mp hd.2⟩
    have hblank : Text.isBlank c = false := by
      simp only [Text.isBlank, Bool.or_eq_false_iff, Bool.and_eq_false_iff, decide_eq_false_iff_not,
        beq_eq_false_iff_ne]
      omega
    refine ⟨⟨by simp [hblank], ?_⟩, ?_⟩
    · rintro rfl
      simp at hd
    · rintro rfl
      simp at hd
  · decide
  · decide

theorem isSolid_plainText {x : Float} (h : x.isFinite = true) :
    isSolid (Decimal.plainText x) = true := by
  have hsigned := Decimal.isSigned_plainText h
  have hsolid := isSolid_ofList hsigned.ne_nil hsigned.chars
  rwa [String.ofList_toList] at hsolid

section Fields

variable {shape : Shape} {b : Block} {name : String}

theorem isSolid_fieldOf (hn : isNeatShape shape = true) (hf : HasField shape b name)
    (hfree : name ≠ "TEXT" ∧ name ≠ "VAR") : isSolid (fieldOf shape b name) = true := by
  have hr := readField_eq_fieldOf hf
  obtain ⟨spec, hs, -⟩ := hf
  have hspec : isNeatField spec = true := by
    simp only [isNeatShape, Bool.and_eq_true, List.all_eq_true] at hn
    exact hn.1.1 spec (List.mem_of_find?_eq_some hs)
  have hname : spec.name = name := by simpa using List.find?_some hs
  simp only [readField, hs] at hr
  cases hk : spec.kind with
  | number min =>
    rw [hk] at hr
    obtain ⟨n, -, hfinite, -, htext⟩ := fieldText_number hr
    rw [htext]
    exact isSolid_plainText hfinite
  | text => simp [isNeatField, hk, hname, hfree.1, hfree.2] at hspec
  | choice options =>
    rw [hk] at hr
    obtain ⟨o, ho, htext⟩ := List.mem_map.mp (fieldText_choice hr).2
    simp only [isNeatField, hk, List.all_eq_true] at hspec
    rw [← htext]
    exact hspec o ho

theorem isSolid_defaultLiteral {slot literal : String} (hn : isNeatShape shape = true)
    (h : shape.defaultLiteral? slot = some literal) : isSolid literal = true := by
  simp only [isNeatShape, Bool.and_eq_true, List.all_eq_true] at hn
  unfold Shape.defaultLiteral? at h
  cases hv : shape.valueSlot? slot with
  | some v =>
    simp only [hv, Option.some.injEq] at h
    exact h ▸ hn.1.2 v (List.mem_of_find?_eq_some hv)
  | none =>
    simp only [hv, Option.bind_eq_some_iff] at h
    obtain ⟨a, ha, h⟩ := h
    split_ifs at h
    simp only [Option.some.injEq] at h
    subst h
    simpa [ha] using hn.2

end Fields

/-- What stands in the slots of a block of some type. -/
structure Slots (shape : Shape) (text : Socket → String) : Prop where
  value : ∀ slot, isPlain (text (.value slot)) = true
  literal : ∀ slot, (shape.defaultLiteral? slot).isSome = true → Inline (text (.value slot))
  statement : ∀ slot, Stack 1 (text (.statement slot)).toList

theorem Inline.wrap {code : String} (h : Inline code) (outer inner : Order) :
    Inline (outer.wrap code inner) := by
  unfold Order.wrap
  split_ifs
  · exact .surround ⟨by decide, by decide, by decide⟩ h.plain ⟨by decide, by decide, by decide⟩
  · exact h

theorem slots_slotText {shape : Shape} (hn : isNeatShape shape = true) (outer : Order)
    {chain : Socket → String} {operand : Socket → Option (String × Order)}
    (hc : ∀ slot, Stack 0 (chain (.statement slot)).toList)
    (ho : ∀ slot code order, operand (.value slot) = some (code, order) → Inline code) :
    Slots shape (slotText shape outer chain operand) := by
  have hvalue : ∀ slot, Inline (slotText shape outer chain operand (.value slot)) ∨
      shape.defaultLiteral? slot = none ∧ slotText shape outer chain operand (.value slot) = "" := by
    intro slot
    cases h : operand (.value slot) with
    | some written =>
      obtain ⟨code, inner⟩ := written
      simp only [slotText, h]
      exact .inl ((ho slot code inner h).wrap outer inner)
    | none =>
      simp only [slotText, h]
      cases hd : shape.defaultLiteral? slot with
      | none => exact .inr ⟨rfl, rfl⟩
      | some literal => exact .inl (.of_solid (isSolid_defaultLiteral hn hd))
  refine ⟨fun slot => ?_, fun slot hd => ?_, fun slot => ?_⟩
  · rcases hvalue slot with h | ⟨-, h⟩
    · exact h.plain
    · rw [h]
      rfl
  · rcases hvalue slot with h | ⟨h, -⟩
    · exact h
    · simp [h] at hd
  · have hindent := (hc slot).indent
    simpa [slotText, indented] using hindent

theorem stack_of_row {s : String} (h : Row 0 s.toList 0) : Stack 0 (s ++ "\n").toList := by
  rw [String.toList_append]
  exact .line h

theorem stack_line {a z e : String} (he : z ++ "\n" = e) (hz : Inline z) (ha : isPlain a = true)
    (hs : startsInk a = true) : Stack 0 (a ++ e).toList := by
  rw [← he, ← String.append_assoc]
  exact stack_of_row
    (Inline.row ⟨by simp [ha, hz.plain], startsInk_append hs z, endsInk_append a hz.ends⟩)

theorem stack_show : Stack 0 "strip.show();\n".toList := by
  have hline := stack_of_row (s := "strip.show();") (Inline.row ⟨by decide, by decide, by decide⟩)
  simpa only [String.reduceAppend] using hline

theorem stack_stripInit : Stack 0 "strip.begin();\nstrip.show();\n".toList := by
  have hline := stack_of_row (s := "strip.begin();") (Inline.row ⟨by decide, by decide, by decide⟩)
  have hboth := hline.append stack_show
  rw [← String.toList_append] at hboth
  simpa only [String.reduceAppend] using hboth

theorem stack_stripColor {a : String} (ha : isPlain a = true) (hs : startsInk a = true) :
    Stack 0 (a ++ "));\nstrip.show();\n").toList := by
  have hline := stack_line (z := "));") rfl ⟨by decide, by decide, by decide⟩ ha hs
  have hboth := hline.append stack_show
  rw [← String.toList_append, String.append_assoc] at hboth
  simpa only [String.reduceAppend] using hboth

theorem stack_braced {head body : String} (hh : isPlain head = true) (hs : startsInk head = true)
    (hb : Stack 1 body.toList) : Stack 0 (braced head body).toList := by
  have hrow : Row 0 (head ++ " \x7b").toList 1 := by
    refine row_of_ink (startsInk_append hs _) (endsInk_append head (by decide)) ?_ ?_
    · rw [String.toList_append, Text.braceDepth_append, braceDepth_of_isPlain hh]
      rfl
    · have hfeed := feed_of_isPlain hh
      simpa using hfeed
  have hstack := Stack.braced hrow hb
  simpa [braced] using hstack

theorem stack_join {texts : List String} (h : ∀ s ∈ texts, Stack 0 s.toList) :
    Stack 0 (String.join texts).toList := by
  rw [String.toList_join]
  induction texts with
  | nil => exact .nil 0
  | cons s texts ih =>
    rw [List.flatMap_cons]
    exact (h s List.mem_cons_self).append (ih fun s' hs' => h s' (List.mem_cons_of_mem s hs'))

theorem stack_branchArm {shape : Shape} {text : Socket → String} (ht : Slots shape text)
    {head : String} (hh : isPlain head = true) (hs : startsInk head = true) (i : Nat) :
    Stack 0 (branchArm head text i).toList := by
  refine stack_braced ?_ ?_ (ht.statement _)
  · simp +decide [hh, ht.value]
  · exact startsInk_append (startsInk_append (startsInk_append hs _) _) _

/-- The braces of a sweep are closed on the same line. -/
theorem stack_sweep {head wait : String} (hh : isPlain head = true) (hs : startsInk head = true)
    (hw : isPlain wait = true) :
    Stack 0 (head ++ " 1) \x7b myservo.write(pos); delay(" ++ wait ++ "); \x7d\n").toList := by
  have hopen : braceDepth 0 " 1) \x7b myservo.write(pos); delay(".toList = some 1 := by decide
  have hclose : braceDepth 1 "); \x7d".toList = some 0 := by decide
  have hrow : Row 0 (head ++ " 1) \x7b myservo.write(pos); delay(" ++ wait ++ "); \x7d").toList 0 := by
    refine row_of_ink ?_ (endsInk_append _ (by decide)) ?_ ?_
    · exact startsInk_append (startsInk_append (startsInk_append hs _) _) _
    · simp only [String.toList_append, Text.braceDepth_append, braceDepth_of_isPlain hh,
        Option.bind_some, hopen, braceDepth_of_isPlain hw, hclose]
    · simp only [String.toList_append, List.mem_append, not_or]
      exact ⟨⟨⟨feed_of_isPlain hh, by decide⟩, feed_of_isPlain hw⟩, by decide⟩
  have hstack := stack_of_row hrow
  rw [String.append_assoc] at hstack
  simpa only [String.reduceAppend] using hstack

theorem stack_sweepLine {start compare stop change wait : String} (hs : isPlain start = true)
    (hc : isPlain compare = true) (he : isPlain stop = true) (hg : isPlain change = true)
    (hw : isPlain wait = true) : Stack 0 (sweepLine start compare stop change wait).toList := by
  unfold sweepLine
  refine stack_sweep ?_ ?_ hw
  · simp +decide [hs, hc, he, hg]
  · simp +decide

section Rules

variable {shape : Shape} {m : Mutation} {field : String → String} {text : Socket → String}

theorem stack_branch (ht : Slots shape text) : Stack 0 (branchArm "if" text 0 ++
    String.join ((List.range' 1 m.elseIfCount).map (branchArm "else if" text)) ++
      if m.hasElse then braced "else" (text (.statement "ELSE")) else "").toList := by
  rw [String.toList_append, String.toList_append]
  refine ((stack_branchArm ht (by decide) (by decide) 0).append (stack_join ?_)).append ?_
  · intro s hs
    obtain ⟨i, -, rfl⟩ := List.mem_map.mp hs
    exact stack_branchArm ht (by decide) (by decide) i
  · split_ifs
    · exact stack_braced (by decide) (by decide) (ht.statement _)
    · exact .nil 0

/-- A rule for statements writes whole lines. Behind the setup there is a blank line as well. -/
theorem Rule.stack_statementText {rule : Rule} (hne : rule ≠ .setup)
    (hf : ∀ name ∈ rule.fields, isPlain (field name) = true) (ht : Slots shape text) :
    Stack 0 (statementText (some (rule.render m field text))).toList := by
  cases rule with
  | setup => exact absurd rfl hne
  | loop =>
    simp only [Rule.render, statementText]
    exact stack_braced (by decide) (by decide) (ht.statement _)
  | branch =>
    simp only [Rule.render, statementText]
    exact stack_branch ht
  | whileLoop =>
    simp only [Rule.render, statementText]
    refine stack_braced ?_ ?_ (ht.statement _)
    · simp +decide [ht.value]
    · simp +decide
  | countedLoop =>
    simp only [Rule.render, statementText]
    simp only [Rule.fields, List.forall_mem_cons] at hf
    refine stack_braced ?_ ?_ (ht.statement _)
    · simp +decide [hf]
    · simp +decide
  | delay | serialBegin | servoAttach | pinMode | digitalWrite | analogWrite =>
    simp only [Rule.render, statementText]
    simp only [Rule.fields, List.forall_mem_cons] at hf
    refine stack_line (z := ");") rfl ⟨by decide, by decide, by decide⟩ ?_ ?_
    · simp +decide [hf]
    · simp +decide
  | serialPrint | serialPrintln =>
    simp only [Rule.render, statementText]
    simp only [Rule.fields, List.forall_mem_cons] at hf
    refine stack_line (z := "\");") rfl ⟨by decide, by decide, by decide⟩ ?_ ?_
    · simp +decide [hf]
    · simp +decide
  | servoSweep =>
    simp only [Rule.render, statementText, String.toList_append]
    have hstart := hf "IDEGREE" (by decide)
    have hstop := hf "FDEGREE" (by decide)
    have hwait := hf "DELAY" (by decide)
    exact (stack_sweepLine hstart (by decide) hstop (by decide) hwait).append
      (stack_sweepLine hstop (by decide) hstart (by decide) hwait)
  | stripInit =>
    simp only [Rule.render, statementText]
    exact stack_stripInit
  | stripColor =>
    simp only [Rule.render, statementText]
    simp only [Rule.fields, List.forall_mem_cons] at hf
    refine stack_stripColor ?_ ?_
    · simp +decide [hf]
    · simp +decide
  | operation =>
    have hempty : statementText (some (Rule.operation.render m field text)) = "" := by
      simp only [Rule.render]
      split <;> rfl
    rw [hempty]
    exact .nil 0
  | _ => exact .nil 0

theorem isPlain_symbol {op symbol : String} {order : Order}
    (h : operator? op = some (symbol, order)) : isPlain symbol = true := by
  rw [Expression.Operator.operator?_eq] at h
  obtain ⟨o, -, he⟩ := Option.map_eq_some_iff.mp h
  rw [Prod.mk.injEq] at he
  rw [← he.1]
  cases o <;> decide

end Rules

/-- The free texts of a block hold no braces and no line feeds. -/
def PlainTexts (b : Block) : Prop :=
  isPlain (builtinField b "TEXT") = true ∧ isPlain (builtinField b "VAR") = true

section Blocks

variable {w : Workspace} {place : Place} {b : Block} {shape : Shape} {rule : Rule}
  {text : Socket → String}

theorem isPlain_fieldOf (hs : Arduino.catalogue.shape? b.typeId = some shape) (hp : PlainTexts b)
    {name : String} (hf : HasField shape b name) : isPlain (fieldOf shape b name) = true := by
  have htexts := hp
  simp only [PlainTexts, builtinField, hs] at htexts
  by_cases htext : name = "TEXT"
  · exact htext ▸ htexts.1
  · by_cases hvar : name = "VAR"
    · exact hvar ▸ htexts.2
    · exact (Inline.of_solid (isSolid_fieldOf (isNeatShape_of_builtin hs) hf ⟨htext, hvar⟩)).plain

/-- A rule for operands writes a text that can stand inside a line. -/
theorem Rule.inline_render (hs : Arduino.catalogue.shape? b.typeId = some shape)
    (hsuits : rule.suits shape = true) (hf : rule.fault? shape b = none) (hp : PlainTexts b)
    (ht : Slots shape text) {code : String} {order : Order}
    (hr : rule.render b.mutation (fieldOf shape b) text = .value code order) : Inline code := by
  have hn := isNeatShape_of_builtin hs
  obtain ⟨hfields, hop⟩ := (Rule.fault?_eq_none_iff shape b rule).mp hf
  cases rule with
  | number =>
    cases hr
    exact .of_solid (isSolid_fieldOf hn (hfields "NUMBER" (by decide)) (by decide))
  | boolean =>
    cases hr
    exact .of_solid (isSolid_fieldOf hn (hfields "BOOL" (by decide)) (by decide))
  | text =>
    cases hr
    exact .surround ⟨by decide, by decide, by decide⟩ (isPlain_fieldOf hs hp (hfields "TEXT" (by decide)))
      ⟨by decide, by decide, by decide⟩
  | digitalRead | analogRead =>
    cases hr
    exact .surround ⟨by decide, by decide, by decide⟩ (isPlain_fieldOf hs hp (hfields "PIN" (by decide)))
      ⟨by decide, by decide, by decide⟩
  | operation =>
    obtain ⟨⟨symbol, order'⟩, ho⟩ := Option.isSome_iff_exists.mp (hop rfl)
    simp only [Rule.render, ho, Rendered.value.injEq] at hr
    rw [← hr.1]
    have hliteral : ∀ slot ∈ ["A", "B"], (shape.defaultLiteral? slot).isSome = true := by
      intro slot hslot
      have hd := List.all_eq_true.mp hsuits slot hslot
      simp only [List.mem_cons, List.not_mem_nil, or_false, decide_eq_true_eq] at hd
      rcases hd with hd | hd <;> simp [hd]
    have hsymbol := isPlain_symbol ho
    have hwhole := Inline.surround (ht.literal "A" (hliteral "A" (by simp)))
      (s := " " ++ symbol ++ " ") (by simp +decide [hsymbol])
      (ht.literal "B" (hliteral "B" (by simp)))
    simpa only [String.append_assoc] using hwhole
  | _ => simp [Rule.suits] at hsuits

theorem isEntry_of_setup (hs : Arduino.catalogue.shape? b.typeId = some shape)
    (hr : Rules.builtin.get? b.typeId = some .setup) : shape.isEntry = true := by
  have hall : Arduino.types.all (fun e => Rules.builtin.get? e.1 != some .setup || e.2.isEntry) = true := by
    decide
  have hentry := List.all_eq_true.mp hall _ (Arduino.mem_types hs)
  simpa [hr] using hentry

variable {chain : Socket → String} {operand : Socket → Option (String × Order)}
  (hc : ∀ slot, Stack 0 (chain (.statement slot)).toList)
  (ho : ∀ slot code order, operand (.value slot) = some (code, order) → Inline code)
  (ha : (builtinContext w).Admits place b) (hp : b.enabled = true → PlainTexts b)
include hc ho ha hp

/-- A block in a chain is written as whole lines. At the top a blank line may come after them. -/
theorem statementText_cases (hplace : place ≠ .operand) :
    Stack 0 (statementText (blockText (builtinContext w) b chain operand)).toList ∨
      place = .top ∧ ∃ s : String, s ≠ "" ∧ Stack 0 s.toList ∧
        statementText (blockText (builtinContext w) b chain operand) = s ++ "\n" := by
  cases hb : b.enabled with
  | false => exact .inl (by simpa [blockText, hb, statementText] using Stack.nil 0)
  | true =>
    obtain ⟨shape, rule, hs, hr, -, -, hentry, hf⟩ := ha hb
    have hs : Arduino.catalogue.shape? b.typeId = some shape := hs
    have hr : Rules.builtin.get? b.typeId = some rule := hr
    have ht := slots_slotText (isNeatShape_of_builtin hs) (rule.outer (fieldOf shape b)) hc ho
    have hblock : blockText (builtinContext w) b chain operand = some (rule.render b.mutation
        (fieldOf shape b) (slotText shape (rule.outer (fieldOf shape b)) chain operand)) := by
      simp [blockText, builtinContext, hb, hs, hr]
    rw [hblock]
    -- The setup alone writes a blank line, and it is an entry, which stands in no chain.
    by_cases hsetup : rule = .setup
    · subst hsetup
      right
      have htop : place = .top := by
        cases place with
        | top => rfl
        | chain =>
          have hno := hentry rfl
          rw [isEntry_of_setup hs hr] at hno
          cases hno
        | operand => exact absurd rfl hplace
      refine ⟨htop, _, ?_, ?_, rfl⟩
      · simp [braced]
      · exact stack_braced (by decide) (by decide) (ht.statement _)
    · left
      have hfields := ((Rule.fault?_eq_none_iff shape b rule).mp hf).1
      exact Rule.stack_statementText hsetup
        (fun name hn => isPlain_fieldOf hs (hp hb) (hfields name hn)) ht

theorem inline_operandText? (hplace : place = .operand) {code : String} {order : Order}
    (h : operandText? (blockText (builtinContext w) b chain operand) = some (code, order)) :
    Inline code := by
  cases hb : b.enabled with
  | false => simp [blockText, hb, operandText?] at h
  | true =>
    obtain ⟨shape, rule, hs, hr, hv, -, -, hf⟩ := ha hb
    have hs : Arduino.catalogue.shape? b.typeId = some shape := hs
    have hr : Rules.builtin.get? b.typeId = some rule := hr
    have hvalue : shape.output = .value := by rw [hv, hplace]; rfl
    have ht := slots_slotText (isNeatShape_of_builtin hs) (rule.outer (fieldOf shape b)) hc ho
    simp only [blockText, builtinContext, hb, hs, hr, if_true] at h
    cases hrender : rule.render b.mutation (fieldOf shape b)
        (slotText shape (rule.outer (fieldOf shape b)) chain operand) with
    | statement code => simp [hrender, operandText?] at h
    | value code' order' =>
      simp only [hrender, operandText?] at h
      split_ifs at h
      simp only [Option.some.injEq, Prod.mk.injEq] at h
      rw [← h.1]
      exact Rule.inline_render hs (suits_of_value hs hr hvalue) hf (hp hb) ht hrender

end Blocks

/-- The free texts of the blocks that are met are plain, and each block suits its place. -/
def PlainVisits (w : Workspace) (visits : List Visit) : Prop :=
  ∀ v ∈ visits, (builtinContext w).Admits v.place v.block ∧ (v.block.enabled = true → PlainTexts v.block)

mutual

/-- What stands at a place that is not the top. -/
theorem Tree.stacks (w : Workspace) : ∀ (t : Tree) (r : Reference) (place : Place),
    PlainVisits w (t.visits r place) →
      (place = .chain → Stack 0 (t.chainText (builtinContext w)).toList) ∧
        (place = .operand → ∀ code order, t.operand (builtinContext w) = some (code, order) →
          Inline code)
  | .leaf, _, _, _ => ⟨fun _ => .nil 0, by simp [Tree.operand]⟩
  | .node id b inputs next, r, place, h => by
    have hown := h ⟨r, place, id, b⟩ (by simp [Tree.visits])
    have hinputs := Inputs.stacks w inputs id fun v hv => h v (by simp [Tree.visits, hv])
    have hnext := Tree.stacks w next (.link id .next) .chain fun v hv => h v (by simp [Tree.visits, hv])
    refine ⟨fun hplace => ?_, fun hplace code order hcode => ?_⟩
    · rcases statementText_cases hinputs.1 hinputs.2 hown.1 hown.2 (by simp [hplace]) with hs | ⟨htop, -⟩
      · rw [Tree.chainText, String.toList_append]
        exact hs.append (hnext.1 rfl)
      · simp [hplace] at htop
    · exact inline_operandText? hinputs.1 hinputs.2 hown.1 hown.2 hplace hcode

theorem Inputs.stacks (w : Workspace) : ∀ (inputs : Inputs) (id : String),
    PlainVisits w (inputs.visits id) →
      (∀ slot, Stack 0 (inputs.chainText (builtinContext w) (.statement slot)).toList) ∧
        ∀ slot code order, inputs.operand (builtinContext w) (.value slot) = some (code, order) →
          Inline code
  | .nil, _, _ => ⟨fun _ => .nil 0, by simp [Inputs.operand]⟩
  | .cons s t others, id, h => by
    have ht := Tree.stacks w t (.link id s) (placeAt s) fun v hv => h v (by simp [Inputs.visits, hv])
    have hothers := Inputs.stacks w others id fun v hv => h v (by simp [Inputs.visits, hv])
    refine ⟨fun slot => ?_, fun slot code order hcode => ?_⟩
    · rw [Inputs.chainText]
      split_ifs with hs
      · exact ht.1 (by rw [← hs]; rfl)
      · exact hothers.1 slot
    · rw [Inputs.operand] at hcode
      split_ifs at hcode with hs
      · exact ht.2 (by rw [← hs]; rfl) code order hcode
      · exact hothers.2 slot code order hcode

end

/-- A text whose lines stand where they have to, and that starts with no blank. -/
structure Sheet (s : String) : Prop where
  laid : Laid s.toList
  start : ∀ c, s.toList.head? = some c → Text.isBlank c = false

theorem Sheet.empty : Sheet "" := ⟨.nil, by simp⟩

theorem Inline.sheet {s : String} (h : Inline s) : Sheet s := ⟨.line h.row, head_of_startsInk h.starts⟩

theorem Sheet.of_stack {s : String} (h : Stack 0 s.toList) : Sheet s := ⟨h.laid, h.start⟩

theorem Sheet.feed {a b : String} (ha : Sheet a) (hne : a ≠ "") (hb : Laid b.toList) :
    Sheet (a ++ "\n" ++ b) := by
  have hl : (a ++ "\n" ++ b).toList = a.toList ++ '\n' :: b.toList := by simp
  refine ⟨?_, fun c hc => ha.start c ?_⟩
  · rw [hl]
    exact ha.laid.feed hb
  · obtain ⟨x, r, hx⟩ := List.exists_cons_of_ne_nil (show a.toList ≠ [] by simpa using hne)
    rw [hl] at hc
    simpa [hx] using hc

theorem Sheet.intercalate {texts : List String} (h : ∀ s ∈ texts, s ≠ "" ∧ Sheet s) :
    Sheet (String.intercalate "\n" texts) ∧ (texts ≠ [] → String.intercalate "\n" texts ≠ "") := by
  cases texts with
  | nil => exact ⟨.empty, by simp⟩
  | cons s texts =>
    obtain ⟨hne, hs⟩ := h s List.mem_cons_self
    have hl : (String.intercalate "\n" (s :: texts)).toList =
        ['\n'].intercalate (s.toList :: texts.map String.toList) := String.toList_intercalate
    have hhead := Text.head?_intercalate (show s.toList ≠ [] by simpa using hne)
      (texts.map String.toList)
    rw [← hl] at hhead
    refine ⟨⟨?_, ?_⟩, fun _ hempty => ?_⟩
    · rw [hl, ← List.map_cons]
      exact .intercalate (List.forall_mem_map.mpr fun s' hs' => (h s' hs').2.laid)
    · rw [hhead]
      exact hs.start
    · rw [hempty] at hhead
      have hnil : s.toList = [] := List.head?_eq_none_iff.mp hhead.symm
      exact hne (by simpa using hnil)

theorem Tree.sheet_rootText (w : Workspace) (t : Tree) (r : Reference) (place : Place)
    (h : PlainVisits w (t.visits r place)) : Sheet (t.rootText (builtinContext w) place) := by
  have hstacks := Tree.stacks w t r place h
  cases place with
  | operand =>
    simp only [Tree.rootText]
    cases ho : t.operand (builtinContext w) with
    | none => exact .empty
    | some written => exact (hstacks.2 rfl written.1 written.2 ho).sheet
  | chain => exact .of_stack (hstacks.1 rfl)
  | top =>
    cases t with
    | leaf => exact .empty
    | node id b inputs next =>
      have hown := h ⟨r, .top, id, b⟩ (by simp [Tree.visits])
      have hinputs := Inputs.stacks w inputs id fun v hv => h v (by simp [Tree.visits, hv])
      have hnext := (Tree.stacks w next (.link id .next) .chain
        fun v hv => h v (by simp [Tree.visits, hv])).1 rfl
      simp only [Tree.rootText, Tree.chainText]
      rcases statementText_cases hinputs.1 hinputs.2 hown.1 hown.2 (by simp) with hs | ⟨-, s, hne, hs, he⟩
      · refine .of_stack ?_
        rw [String.toList_append]
        exact hs.append hnext
      · rw [he]
        exact (Sheet.of_stack hs).feed hne hnext.laid

theorem sheet_of_mem_rootTexts (w : Workspace) (roots : List String) : ∀ (i : Nat) (trees : List Tree),
    PlainVisits w (forestVisits (builtinContext w) i roots trees) →
      ∀ s ∈ List.zipWith (fun id tree => tree.rootText (builtinContext w)
        ((builtinContext w).rootPlace id)) roots trees, Sheet s := by
  induction roots with
  | nil => simp
  | cons id roots ih =>
    intro i trees h s hs
    cases trees with
    | nil => simp at hs
    | cons tree trees =>
      rw [List.zipWith_cons_cons] at hs
      rcases List.mem_cons.mp hs with rfl | hs
      · exact tree.sheet_rootText w (.root i) _ fun v hv => h v (by simp [forestVisits, hv])
      · exact ih (i + 1) trees (fun v hv => h v (by simp [forestVisits, hv])) s hs

theorem sheet_joinRoots {texts : List String} (h : ∀ s ∈ texts, Sheet s) : Sheet (joinRoots texts) := by
  have hbody : Sheet (String.intercalate "\n" (texts.filter fun s => !s.isEmpty)) := by
    refine (Sheet.intercalate fun s hs => ?_).1
    obtain ⟨hmem, hne⟩ := List.mem_filter.mp hs
    exact ⟨by simpa using hne, h s hmem⟩
  obtain ⟨hlaid, hstart⟩ := hbody.laid.tidyChars hbody.start
  unfold joinRoots Text.tidy
  exact ⟨by simpa using hlaid, by simpa using hstart⟩

theorem sheet_assemble {d : Table String} {body : String} (hd : ∀ s ∈ d.values, s ≠ "" ∧ Sheet s)
    (hb : Sheet body) : Sheet (assemble d body) := by
  rw [assemble_eq_headerText, headerText]
  split_ifs with hnone
  · simpa using hb
  · obtain ⟨hheader, hne⟩ := Sheet.intercalate hd
    have hblank : Laid ("\n" ++ body).toList := by
      rw [String.toList_append]
      exact Laid.nil.feed hb.laid
    -- The blank line below the header is an empty line in front of the body.
    have hfeeds : "\n\n" = "\n" ++ "\n" := rfl
    rw [hfeeds]
    simpa only [String.append_assoc] using hheader.feed (hne hnone) hblank

section Header

variable {b : Block} {shape : Shape} {rule : Rule}

theorem sheet_of_mem_hoisted (hs : Arduino.catalogue.shape? b.typeId = some shape)
    (hf : rule.fault? shape b = none) {e : String × String} (he : e ∈ rule.hoisted (fieldOf shape b)) :
    e.2 ≠ "" ∧ Sheet e.2 := by
  have hfields := ((Rule.fault?_eq_none_iff shape b rule).mp hf).1
  cases rule with
  | servoDefine =>
    simp only [Rule.hoisted, List.mem_cons, List.not_mem_nil, or_false] at he
    rcases he with rfl | rfl
    · exact ⟨by decide, Inline.sheet ⟨by decide, by decide, by decide⟩⟩
    · have hservo : Inline "Servo myservo;" := ⟨by decide, by decide, by decide⟩
      have hpos : Inline "int pos = 0;" := ⟨by decide, by decide, by decide⟩
      exact ⟨by decide, hservo.sheet.feed hservo.ne_empty hpos.sheet.laid⟩
  | stripInit =>
    simp only [Rule.hoisted, List.mem_cons, List.not_mem_nil, or_false] at he
    rcases he with rfl | rfl
    · exact ⟨by decide, Inline.sheet ⟨by decide, by decide, by decide⟩⟩
    · have hn := isNeatShape_of_builtin hs
      have hleds := Inline.of_solid (isSolid_fieldOf hn (hfields "NUM_LEDS" (by decide)) (by decide))
      have hpin := Inline.of_solid (isSolid_fieldOf hn (hfields "PIN" (by decide)) (by decide))
      have hstrip : Inline ("Adafruit_NeoPixel strip(" ++ fieldOf shape b "NUM_LEDS" ++ ", " ++
          fieldOf shape b "PIN" ++ ", NEO_GRB + NEO_KHZ800);") :=
        ⟨by simp +decide [hleds.plain, hpin.plain], by simp +decide, endsInk_append _ (by decide)⟩
      exact ⟨hstrip.ne_empty, hstrip.sheet⟩
  | _ => simp [Rule.hoisted] at he

/-- Every declaration comes from a block that was written. -/
theorem sheet_of_mem_definitions {w : Workspace} {roots : List String} {t : Trail} {trees : List Tree}
    (hf : FoundForest (builtinContext w) 0 roots {} t trees) :
    ∀ s ∈ t.definitions.values, s ≠ "" ∧ Sheet s := by
  intro s hs
  have htable : t.definitions = Table.ofList (trees.flatMap (Tree.hoisted (builtinContext w))) := by
    rw [hf.leaves.trail]
    rfl
  rw [htable, Table.values] at hs
  obtain ⟨e, he, rfl⟩ := List.mem_map.mp hs
  have hmem := Table.mem_of_mem_ofList he
  rw [hf.unfold.hoisted_eq] at hmem
  obtain ⟨b, hb, he⟩ := List.mem_flatMap.mp hmem
  have hen : b.enabled = true := by
    by_contra hen
    simp [ownHoisted, hen] at he
  obtain ⟨shape, rule, hs, hr, hfault⟩ := hf.fault?_eq_none (List.mem_filter.mpr ⟨hb, hen⟩)
  simp only [ownHoisted, hen, if_true, hs, hr] at he
  exact sheet_of_mem_hoisted hs hfault he

end Header

theorem plainVisits_of_rendered {w : Workspace} {roots texts : List String} {t : Trail}
    {trees : List Tree} (hf : FoundForest (builtinContext w) 0 roots {} t trees)
    (ho : outcome (rootTexts (builtinContext w) (builtinContext w).depth roots) {} = (.ok texts, t))
    (hp : ∀ b ∈ rendered (builtinContext w) roots, PlainTexts b) :
    PlainVisits w (forestVisits (builtinContext w) 0 roots trees) := by
  intro v hv
  refine ⟨hf.admitted v hv, fun hen => hp v.block ?_⟩
  have hwalked : ∀ v ∈ forestVisits (builtinContext w) 0 roots trees, v.Walked (builtinContext w) roots :=
    hf.unfold.walked 0 (by simp)
  have hid : v.id ∈ trees.flatMap Tree.ids := by
    rw [← map_id_forestVisits hf.unfold 0]
    exact List.mem_map_of_mem hv
  rw [rendered, hf.entered_eq ho]
  exact List.mem_filter.mpr ⟨List.mem_filterMap.mpr ⟨v.id, hid, (hwalked v hv).block⟩, hen⟩

/-- If no free text holds a brace or a line feed, then the braces of a program match, and each line
has a margin of two spaces for every brace that is open before it. -/
theorem generate_laidOut (w : Workspace) (roots : List String) (text : String)
    (h : generate (builtinContext w) roots = .ok text)
    (hp : ∀ b ∈ rendered (builtinContext w) roots, ∀ name ∈ ["TEXT", "VAR"],
      ∀ c ∈ (builtinField b name).toList, c ≠ '\n' ∧ c ≠ '\x7b' ∧ c ≠ '\x7d') :
    Text.LaidOut text.toList := by
  have hplain : ∀ b ∈ rendered (builtinContext w) roots, PlainTexts b := by
    intro b hb
    have hfield : ∀ name ∈ ["TEXT", "VAR"], isPlain (builtinField b name) = true := by
      intro name hname
      refine List.all_eq_true.mpr fun c hc => ?_
      obtain ⟨hn, ho, hcl⟩ := hp b hb name hname c hc
      simp [hn, ho, hcl]
    exact ⟨hfield "TEXT" (by simp), hfield "VAR" (by simp)⟩
  obtain ⟨texts, t, ho, rfl⟩ := pass_of_generate h
  obtain ⟨trees, hf, rfl⟩ := rootTexts_ok 0 ho
  have hbody := sheet_joinRoots
    (sheet_of_mem_rootTexts w roots 0 trees (plainVisits_of_rendered hf ho hplain))
  have hsheet := sheet_assemble (sheet_of_mem_definitions hf) hbody
  exact hsheet.laid.laidOut hsheet.start

/-- A setup with nested braces, and a second root that is an operand. -/
def nestedWorkspace : Workspace :=
  Document.workspaceOf
    [{ id := "s", typeId := "arduino_setup", statements := Table.ofList [("SETUP", "i")] },
      { id := "i", typeId := "arduino_if_else", mutation := ⟨0, true⟩
        statements := Table.ofList [("DO0", "p")] },
      { id := "p", typeId := "arduino_serial_print", fields := Table.ofList [("TEXT", .text " a ")] },
      { id := "t", typeId := "arduino_text" }]

def nestedText : String :=
  "void setup() \x7b\n  if (false) \x7b\n    Serial.print(\" a \");\n  \x7d\n" ++
    "  else \x7b\n  \x7d\n\x7d\n\n\n\"\""

theorem generate_laidOut_nested :
    generate (builtinContext nestedWorkspace) ["s", "t"] = .ok nestedText ∧
      (∀ b ∈ rendered (builtinContext nestedWorkspace) ["s", "t"], ∀ name ∈ ["TEXT", "VAR"],
        ∀ c ∈ (builtinField b name).toList, c ≠ '\n' ∧ c ≠ '\x7b' ∧ c ≠ '\x7d') ∧
      Text.LaidOut nestedText.toList := by
  have hgenerate : generate (builtinContext nestedWorkspace) ["s", "t"] = .ok nestedText := by
    have h : (generate (builtinContext nestedWorkspace) ["s", "t"]).toOption = some nestedText := by
      decide +kernel
    exact eq_ok_of_toOption h
  have hplain : ∀ b ∈ rendered (builtinContext nestedWorkspace) ["s", "t"],
      ∀ name ∈ ["TEXT", "VAR"], ∀ c ∈ (builtinField b name).toList,
        c ≠ '\n' ∧ c ≠ '\x7b' ∧ c ≠ '\x7d' := by
    have hall : (rendered (builtinContext nestedWorkspace) ["s", "t"]).all (fun b =>
        ["TEXT", "VAR"].all fun name => isPlain (builtinField b name)) = true := by
      decide +kernel
    intro b hb name hname c hc
    have hfield := List.all_eq_true.mp (List.all_eq_true.mp hall b hb) name hname
    simpa [and_assoc] using List.all_eq_true.mp hfield c hc
  exact ⟨hgenerate, hplain,
    generate_laidOut nestedWorkspace ["s", "t"] nestedText hgenerate hplain⟩

end BlockSketch.Program
