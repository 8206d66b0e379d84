import BlockSketch.Proofs.Program.Lasting
import BlockSketch.Proofs.Program.Literals
import BlockSketch.Workspace.Lint

namespace BlockSketch

def IsNameStart (c : Char) : Prop := ('A' ≤ c ∧ c ≤ 'Z') ∨ ('a' ≤ c ∧ c ≤ 'z') ∨ c = '_'

def IsNameChar (c : Char) : Prop := IsNameStart c ∨ ('0' ≤ c ∧ c ≤ '9')

/-- An identifier: a letter or an underscore, and then letters, underscores and digits. -/
def IsName (s : List Char) : Prop := ∃ c r, s = c :: r ∧ IsNameStart c ∧ ∀ d ∈ r, IsNameChar d

/-- A name that a variable may have. -/
def Usable (name : String) : Prop := IsName name.toList ∧ name ∉ reservedWords

section Names

theorem startsIdentifier_iff (c : Char) : startsIdentifier c = true ↔ IsNameStart c := by
  have halpha : c.isAlpha = (c.isUpper || c.isLower) := rfl
  have hupper : c.isUpper = decide ('A'.val ≤ c.val ∧ c.val ≤ 'Z'.val) := rfl
  have hlower : c.isLower = (decide ('a'.val ≤ c.val) && decide (c.val ≤ 'z'.val)) := rfl
  simp only [startsIdentifier, halpha, hupper, hlower, IsNameStart, Char.le_def, Bool.or_eq_true,
    Bool.and_eq_true, decide_eq_true_eq, beq_iff_eq, or_assoc]

theorem continuesIdentifier_iff (c : Char) : continuesIdentifier c = true ↔ IsNameChar c := by
  have hsplit : continuesIdentifier c = (startsIdentifier c || c.isDigit) := by
    simp only [continuesIdentifier, startsIdentifier, Char.isAlphanum, Bool.or_assoc, Bool.or_comm c.isDigit]
  rw [hsplit, Bool.or_eq_true, startsIdentifier_iff, IsNameChar]
  simp only [Char.isDigit, Bool.and_eq_true, decide_eq_true_eq, Char.le_def, ge_iff_le]

theorem isName_iff (s : List Char) :
    IsName s ↔ s.head?.any startsIdentifier = true ∧ s.tail.all continuesIdentifier = true := by
  cases s with
  | nil => simp [IsName]
  | cons c r => simp [IsName, startsIdentifier_iff, continuesIdentifier_iff]

instance : DecidablePred IsName := fun s => decidable_of_iff _ (isName_iff s).symm

instance : DecidablePred Usable := fun name => inferInstanceAs (Decidable (IsName name.toList ∧ _))

/-- What is wrong with a name that cannot be used. -/
def misuse (name : String) : IdentifierError :=
  if name = "" then .empty else if IsName name.toList then .reserved name else .invalid name

/-- The check of a name finds what is wrong with it. -/
theorem identifierError?_eq (name : String) :
    identifierError? name = if Usable name then none else some (misuse name) := by
  cases hs : name.toList with
  | nil =>
    obtain rfl : name = "" := String.toList_eq_nil_iff.mp hs
    have hempty : ¬ Usable "" := by decide
    rw [if_neg hempty]
    rfl
  | cons c r =>
    have hne : name ≠ "" := by
      rintro rfl
      simp at hs
    have hname : IsName name.toList ↔ (startsIdentifier c && r.all continuesIdentifier) = true := by
      simp [isName_iff, hs]
    unfold identifierError?
    simp only [hs, Usable, misuse, if_neg hne, ← hname]
    by_cases hn : IsName (c :: r) <;> by_cases hr : name ∈ reservedWords <;> simp [hn, hr]

end Names

def loopFields : List FieldSpec :=
  [.variableName "VAR" "i", .number "FROM" 0, .number "TO" 10, .number "INCREMENT" 1]

theorem Arduino.shape?_for : ∃ shape, Arduino.catalogue.shape? "arduino_for" = some shape ∧
    shape.fields = loopFields :=
  ⟨_, rfl, rfl⟩

theorem Arduino.fields_of_for {typeId : String} {shape : Shape}
    (h : Arduino.catalogue.shape? typeId = some shape) (ht : typeId = "arduino_for") :
    shape.fields = loopFields := by
  obtain ⟨shape', h', hfields⟩ := Arduino.shape?_for
  rw [ht] at h
  obtain rfl : shape = shape' := Option.some.inj (h.symm.trans h')
  exact hfields

/-- No other blocks have names of variables. -/
theorem Arduino.plain_of_ne_for {typeId : String} {shape : Shape}
    (h : Arduino.catalogue.shape? typeId = some shape) (hne : typeId ≠ "arduino_for") :
    ∀ spec ∈ shape.fields, spec.identifier = false ∧ spec.name ≠ "VAR" := by
  have hall : ∀ e ∈ Arduino.types, e.1 ≠ "arduino_for" →
      (e.2.fields.all fun spec => !spec.identifier && spec.name != "VAR") = true := by
    decide
  have hfields := hall _ (Arduino.mem_types h) hne
  simpa [List.all_eq_true] using hfields

/-- The name that a for block gives its variable, as it is written. -/
def variableName (b : Block) : String := Program.builtinField b "VAR"

/-- A for block that cannot have its variable named so. -/
def Misnamed (b : Block) : Prop := b.typeId = "arduino_for" ∧ ¬ Usable (variableName b)

instance : DecidablePred Misnamed := fun b => inferInstanceAs (Decidable (b.typeId = _ ∧ _))

section Warnings

variable {b : Block} {shape : Shape}

/-- The text of the field is its value, or the default, as it is. -/
theorem readField_variable (hs : Arduino.catalogue.shape? b.typeId = some shape)
    (ht : b.typeId = "arduino_for") :
    Program.readField shape b "VAR" = .ok (b.fieldOrDefault (.variableName "VAR" "i")).render := by
  have hspec : shape.field? "VAR" = some (.variableName "VAR" "i") := by
    rw [Shape.field?, Arduino.fields_of_for hs ht]
    rfl
  simp only [Program.readField, hspec]
  rfl

theorem variableName_eq (hs : Arduino.catalogue.shape? b.typeId = some shape)
    (ht : b.typeId = "arduino_for") :
    variableName b = (b.fieldOrDefault (.variableName "VAR" "i")).render := by
  simp only [variableName, Program.builtinField, hs, Program.fieldOf, readField_variable hs ht]

theorem fieldIn_variable (ht : b.typeId = "arduino_for") :
    Program.fieldIn Arduino.catalogue b "VAR" = .ok (variableName b) := by
  obtain ⟨shape, hs, -⟩ := Arduino.shape?_for
  rw [← ht] at hs
  rw [Program.fieldIn_eq_ok_iff_of_shape hs, variableName_eq hs ht, readField_variable hs ht]

theorem warnings_of_block (id : String) (hs : Arduino.catalogue.shape? b.typeId = some shape) :
    shape.fields.filterMap (b.identifierWarning? id) =
      if Misnamed b then [⟨id, "VAR", misuse (variableName b)⟩] else [] := by
  by_cases ht : b.typeId = "arduino_for"
  · have hfirst : b.identifierWarning? id (.variableName "VAR" "i") =
        (identifierError? (variableName b)).map fun e => ⟨id, "VAR", e⟩ := by
      rw [variableName_eq hs ht]
      rfl
    have hothers : [FieldSpec.number "FROM" 0, .number "TO" 10, .number "INCREMENT" 1].filterMap
        (b.identifierWarning? id) = [] :=
      rfl
    rw [Arduino.fields_of_for hs ht, loopFields, List.filterMap_cons, hfirst, hothers,
      identifierError?_eq]
    by_cases hu : Usable (variableName b) <;> simp [Misnamed, ht, hu]
  · have hnone : ∀ spec ∈ shape.fields, b.identifierWarning? id spec = none := by
      intro spec hspec
      simp [Block.identifierWarning?, (Arduino.plain_of_ne_for hs ht spec hspec).1]
    rw [List.filterMap_eq_nil_iff.mpr hnone, if_neg fun hm => ht hm.1]

theorem flatMap_ite {α β : Type} (p : α → Prop) [DecidablePred p] (f : α → β) (l : List α) :
    (l.flatMap fun a => if p a then [f a] else []) = (l.filter fun a => p a).map f := by
  induction l with
  | nil => rfl
  | cons a l ih => by_cases h : p a <;> simp [h, ih]

/-- The warnings are about the blocks that are misnamed, in order of insertion. -/
theorem identifierWarnings_eq (w : Workspace) : w.identifierWarnings Arduino.catalogue =
    (w.blocks.entries.filter fun e => Misnamed e.2).map fun e =>
      ⟨e.1, "VAR", misuse (variableName e.2)⟩ := by
  rw [← flatMap_ite, Workspace.identifierWarnings]
  refine List.flatMap_congr fun e _ => ?_
  cases hs : Arduino.catalogue.shape? e.2.typeId with
  | some shape => exact warnings_of_block e.1 hs
  | none =>
    have hne : ¬ Misnamed e.2 := by
      intro hm
      obtain ⟨shape, hs', -⟩ := Arduino.shape?_for
      rw [hm.1, hs'] at hs
      cases hs
    rw [if_neg hne]

theorem usable_of_no_warnings {w : Workspace} {id : String}
    (h : w.identifierWarnings Arduino.catalogue = []) (hb : w.get? id = some b)
    (ht : b.typeId = "arduino_for") : Usable (variableName b) := by
  rw [identifierWarnings_eq, List.map_eq_nil_iff, List.filter_eq_nil_iff] at h
  have hnot := h _ (Table.mem_of_get? hb)
  by_contra hu
  exact hnot (by simpa using ⟨ht, hu⟩)

end Warnings

namespace Program

open Text (Quotes)

/-- The header of a for loop, with its variable in three places. -/
def loopHeader (name start stop step : String) : String :=
  "for (int " ++ name ++ " = " ++ start ++ "; " ++ name ++ " <= " ++ stop ++ "; " ++ name ++ " += " ++
    step ++ ") \x7b"

/-- What stands between the keyword and the brace of a header. -/
def loopClauses (name start stop step : String) : String :=
  " (int " ++ name ++ " = " ++ start ++ "; " ++ name ++ " <= " ++ stop ++ "; " ++ name ++ " += " ++
    step ++ ") "

def loopQuotes : Quotes := ⟨"for", "\x7b", by decide, by decide, by decide, by decide⟩

section Loops

variable {c : Context} {b : Block} {shape : Shape} {name start stop step : String}

theorem loopHeader_eq (name start stop step : String) : loopHeader name start stop step =
    loopQuotes.opening ++ loopClauses name start stop step ++ loopQuotes.closing := by
  have hopen : "for (int " = "for" ++ " (int " := rfl
  have hclose : ") \x7b" = ") " ++ "\x7b" := rfl
  -- The equation lemma of a long chain of `++` is slow to make, so the definitions are opened as they are.
  delta loopHeader loopClauses
  rw [hopen, hclose]
  simp only [loopQuotes, String.append_assoc]

theorem feed_not_mem_loopClauses (hname : Usable name) (hstart : Decimal.IsSigned start.toList)
    (hstop : Decimal.IsSigned stop.toList) (hstep : Decimal.IsSigned step.toList) :
    '\n' ∉ (loopClauses name start stop step).toList := by
  have hchar : ¬ IsNameChar '\n' := by
    rw [← continuesIdentifier_iff]
    decide
  have hletters : '\n' ∉ name.toList := by
    obtain ⟨⟨first, rest, hs, hfirst, hrest⟩, -⟩ := hname
    rw [hs, List.mem_cons, not_or]
    refine ⟨?_, fun hm => hchar (hrest _ hm)⟩
    rintro rfl
    exact hchar (.inl hfirst)
  have hsigned {s : List Char} (h : Decimal.IsSigned s) : '\n' ∉ s := by
    intro hm
    have hdigit := h.chars '\n' hm
    simp at hdigit
  delta loopClauses
  simp [hletters, hsigned hstart, hsigned hstop, hsigned hstep]

/-- A block that is written as a for loop starts with its header. -/
theorem writes_loopHeader (hen : b.enabled = true) (hs : c.catalogue.shape? b.typeId = some shape)
    (hr : c.rules.get? b.typeId = some .countedLoop) :
    c.Writes (fun s => ∃ a z, s = a ++ loopHeader (fieldOf shape b "VAR") (fieldOf shape b "FROM")
      (fieldOf shape b "TO") (fieldOf shape b "INCREMENT") ++ z) b := by
  refine ⟨hen, fun chain operand r hrendered => ?_⟩
  rw [blockText_of_enabled hen hs hr, Option.some.injEq] at hrendered
  refine ⟨"", "\n" ++ slotText shape .loosest chain operand (.statement "DO0") ++ "\x7d\n", ?_⟩
  have hparen : ") \x7b" = ")" ++ " \x7b" := rfl
  have hbrace : " \x7b\n" = " \x7b" ++ "\n" := rfl
  rw [← hrendered]
  delta loopHeader
  simp only [Rule.render, Rendered.code, braced, Rule.outer, String.empty_append]
  rw [hparen, hbrace]
  simp only [String.append_assoc]

/-- A field that is read by the rule for loops is declared by no type but that of for blocks. -/
theorem typeId_of_variable (hs : Arduino.catalogue.shape? b.typeId = some shape)
    (hf : HasField shape b "VAR") : b.typeId = "arduino_for" := by
  by_contra hne
  obtain ⟨spec, hspec, -⟩ := hf
  have hname : spec.name = "VAR" := by simpa using List.find?_some hspec
  exact (Arduino.plain_of_ne_for hs hne spec (List.mem_of_find?_eq_some hspec)).2 hname

theorem signed_of_loopField (hs : Arduino.catalogue.shape? b.typeId = some shape)
    (ht : b.typeId = "arduino_for") {name : String} (hname : name ∈ ["FROM", "TO", "INCREMENT"])
    (hf : HasField shape b name) :
    fieldIn Arduino.catalogue b name = .ok (fieldOf shape b name) ∧
      Decimal.IsSigned (fieldOf shape b name).toList := by
  have hread := readField_eq_fieldOf hf
  refine ⟨(fieldIn_eq_ok_iff_of_shape hs).mpr hread, ?_⟩
  have hkind : ∃ spec, shape.field? name = some spec ∧ spec.kind = .number none := by
    rw [Shape.field?, Arduino.fields_of_for hs ht]
    simp only [List.mem_cons, List.not_mem_nil, or_false] at hname
    rcases hname with rfl | rfl | rfl <;> exact ⟨_, rfl, rfl⟩
  obtain ⟨spec, hspec, hkind⟩ := hkind
  simp only [readField, hspec, hkind] at hread
  obtain ⟨n, -, hfinite, -, htext⟩ := fieldText_number hread
  rw [htext]
  exact Decimal.isSigned_plainText hfinite

end Loops

/-- The warnings about names are about exactly those for blocks, in order of insertion, whose
variable would be written with a name that cannot be used. -/
theorem names_agree (w : Workspace) :
    (∀ b, b.typeId = "arduino_for" → fieldIn Arduino.catalogue b "VAR" = .ok (variableName b)) ∧
      w.identifierWarnings Arduino.catalogue =
        (w.blocks.entries.filter fun e =>
          e.2.typeId = "arduino_for" ∧ ¬ Usable (variableName e.2)).map (fun e =>
            ⟨e.1, "VAR", misuse (variableName e.2)⟩) ∧
      (w.identifierWarnings Arduino.catalogue = [] → ∀ rules roots text,
        generate ⟨Arduino.catalogue, rules, w⟩ roots = .ok text →
          ∀ id ∈ entered ⟨Arduino.catalogue, rules, w⟩ roots, ∀ b, w.get? id = some b →
            b.enabled = true → rules.get? b.typeId = some .countedLoop →
              b.typeId = "arduino_for" ∧ Usable (variableName b) ∧
                ∃ start stop step before after, fieldIn Arduino.catalogue b "FROM" = .ok start ∧
                  fieldIn Arduino.catalogue b "TO" = .ok stop ∧
                  fieldIn Arduino.catalogue b "INCREMENT" = .ok step ∧
                  text = before ++ loopHeader (variableName b) start stop step ++ after) := by
  refine ⟨fun b => fieldIn_variable, identifierWarnings_eq w, ?_⟩
  intro hnone rules roots text h id hid b hb hen hr
  obtain ⟨place, hadmits⟩ := admits_of_entered h hid hb
  obtain ⟨shape, rule, hs, hr', -, -, -, hfault⟩ := hadmits hen
  obtain rfl : Rule.countedLoop = rule := Option.some.inj (hr.symm.trans hr')
  have hfields := ((Rule.fault?_eq_none_iff shape b .countedLoop).mp hfault).1
  have ht : b.typeId = "arduino_for" := typeId_of_variable hs (hfields "VAR" (by decide))
  have husable := usable_of_no_warnings hnone hb ht
  obtain ⟨hfrom, hstart⟩ := signed_of_loopField hs ht (by decide) (hfields "FROM" (by decide))
  obtain ⟨hto, hstop⟩ := signed_of_loopField hs ht (by decide) (hfields "TO" (by decide))
  obtain ⟨hincrement, hstep⟩ := signed_of_loopField hs ht (by decide) (hfields "INCREMENT" (by decide))
  have hname : fieldOf shape b "VAR" = variableName b := by
    rw [variableName_eq hs ht, fieldOf, readField_variable hs ht]
  have hwrites := writes_loopHeader (c := ⟨Arduino.catalogue, rules, w⟩) hen hs hr
  rw [hname, loopHeader_eq] at hwrites
  have hfeed := feed_not_mem_loopClauses husable hstart hstop hstep
  obtain ⟨before, after, htext⟩ := piece_of_entered hfeed h hid hb hwrites
  exact ⟨ht, husable, _, _, _, before, after, hfrom, hto, hincrement, by rw [loopHeader_eq, htext]⟩

def counting (name : String) : Block :=
  { id := "f", typeId := "arduino_for", fields := Table.ofList [("VAR", .text name)] }

def countingText : String := "for (int _2 = 0; _2 <= 10; _2 += 1) \x7b\n\x7d\n"

/-- The empty name, one that is malformed and one that is reserved, and one that can be used. -/
theorem names_agree_counting :
    (["", "2_", "for"].map fun name =>
        (Document.workspaceOf [counting name]).identifierWarnings Arduino.catalogue) =
      [[⟨"f", "VAR", .empty⟩], [⟨"f", "VAR", .invalid "2_"⟩], [⟨"f", "VAR", .reserved "for"⟩]] ∧
    generate (builtinContext (Document.workspaceOf [counting "_2"])) ["f"] = .ok countingText ∧
      Usable "_2" ∧ ∃ before after, countingText = before ++ loopHeader "_2" "0" "10" "1" ++ after := by
  have hrun : (generate (builtinContext (Document.workspaceOf [counting "_2"])) ["f"]).toOption =
      some countingText := by
    decide +kernel
  have hok := eq_ok_of_toOption hrun
  have hwarned (name : String) := (names_agree (Document.workspaceOf [counting name])).2.1
  have hnames : (["", "2_", "for"].map fun name =>
      ((Document.workspaceOf [counting name]).blocks.entries.filter fun e =>
        e.2.typeId = "arduino_for" ∧ ¬ Usable (variableName e.2)).map fun e =>
          (⟨e.1, "VAR", misuse (variableName e.2)⟩ : IdentifierWarning)) =
      [[⟨"f", "VAR", .empty⟩], [⟨"f", "VAR", .invalid "2_"⟩], [⟨"f", "VAR", .reserved "for"⟩]] := by
    decide +kernel
  simp only [← hwarned] at hnames
  refine ⟨hnames, hok, ?_⟩
  have hfields : (["FROM", "TO", "INCREMENT"].map fun name =>
      (fieldIn Arduino.catalogue (counting "_2") name).toOption) =
        [some "0", some "10", some "1"] := by
    decide +kernel
  simp only [List.map_cons, List.map_nil, List.cons.injEq, and_true] at hfields
  have hname : variableName (counting "_2") = "_2" := by decide +kernel
  obtain ⟨-, husable, start, stop, step, before, after, hfrom, hto, hincrement, htext⟩ :=
    (names_agree (Document.workspaceOf [counting "_2"])).2.2 (by decide +kernel) Rules.builtin ["f"]
      countingText hok "f" (by decide +kernel) (counting "_2") rfl rfl rfl
  rw [hfrom, hto, hincrement] at hfields
  obtain ⟨hstart, hstop, hstep⟩ := hfields
  obtain rfl : start = "0" := Option.some.inj hstart
  obtain rfl : stop = "10" := Option.some.inj hstop
  obtain rfl : step = "1" := Option.some.inj hstep
  rw [hname] at husable htext
  exact ⟨husable, before, after, htext⟩

end Program

end BlockSketch
