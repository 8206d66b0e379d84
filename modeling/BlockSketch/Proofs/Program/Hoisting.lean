import BlockSketch.Proofs.Program.Builtin
import BlockSketch.Proofs.Program.Soundness
import Mathlib.Data.List.Induction

namespace BlockSketch.Program

/-- The enabled blocks that a pass entered, in the order of the walk. -/
def rendered (c : Context) (roots : List String) : List Block :=
  ((entered c roots).filterMap c.workspace.get?).filter (·.enabled)

def isServo (b : Block) : Bool := b.typeId == "arduino_servo_define"

def isStrip (b : Block) : Bool := b.typeId == "neopixel_init"

/-- The text of a field of a built-in block. -/
def builtinField (b : Block) (name : String) : String :=
  match Arduino.catalogue.shape? b.typeId with
  | some shape => fieldOf shape b name
  | none => ""

def servoGroup : List (String × String) :=
  [("include_servo", "#include <Servo.h>"), ("define_servo", "Servo myservo;\nint pos = 0;")]

def stripGroup (b : Block) : List (String × String) :=
  [("include_neopixel", "#include <Adafruit_NeoPixel.h>"),
    ("define_strip", "Adafruit_NeoPixel strip(" ++ builtinField b "NUM_LEDS" ++ ", " ++
      builtinField b "PIN" ++ ", NEO_GRB + NEO_KHZ800);")]

/-- The groups that are there, one after the other. -/
def arrange (servo : Bool) (strip? : Option Block) (stripFirst : Bool) : List (String × String) :=
  let servoPart := if servo then servoGroup else []
  let stripPart := (strip?.map stripGroup).getD []
  if stripFirst then stripPart ++ servoPart else servoPart ++ stripPart

def lastStrip? (blocks : List Block) : Option Block := (blocks.filter isStrip).getLast?

/-- The first block that hoists at all is one for the strip. -/
def stripLeads (blocks : List Block) : Bool :=
  (blocks.find? fun b => isServo b || isStrip b).any isStrip

/-- The declarations of some blocks: the strip is the one of the last block for it, and the group
comes first whose first block does. -/
def declarations (blocks : List Block) : List (String × String) :=
  arrange (blocks.any isServo) (lastStrip? blocks) (stripLeads blocks)

/-- Declarations with a blank line behind them, if there are any. -/
def headerText (texts : List String) : String :=
  if texts = [] then "" else String.intercalate "\n" texts ++ "\n\n"

def ownDeclarations (b : Block) : List (String × String) :=
  if isServo b then servoGroup else if isStrip b then stripGroup b else []

section Arrange

variable {blocks : List Block}

theorem lastStrip?_isSome_iff : (lastStrip? blocks).isSome = true ↔ ∃ b ∈ blocks, isStrip b = true := by
  simp [lastStrip?]

theorem lastStrip?_append (blocks : List Block) (b : Block) :
    lastStrip? (blocks ++ [b]) = if isStrip b then some b else lastStrip? blocks := by
  unfold lastStrip?
  rw [List.filter_append]
  cases h : isStrip b <;> simp [h]

theorem isSome_of_stripLeads (h : stripLeads blocks = true) : (lastStrip? blocks).isSome = true := by
  rw [lastStrip?_isSome_iff]
  unfold stripLeads at h
  cases hf : blocks.find? fun b => isServo b || isStrip b with
  | none => simp [hf] at h
  | some b =>
    have hb : isStrip b = true := by simpa [hf] using h
    exact ⟨b, List.mem_of_find?_eq_some hf, hb⟩

/-- If there are blocks for the strip, but the first block that hoists is not one of them, then it is
one for the servo. -/
theorem any_of_not_stripLeads (h : stripLeads blocks = false)
    (hs : (lastStrip? blocks).isSome = true) : blocks.any isServo = true := by
  obtain ⟨x, hx, hstrip⟩ := lastStrip?_isSome_iff.mp hs
  unfold stripLeads at h
  cases hf : blocks.find? fun b => isServo b || isStrip b with
  | none =>
    have hnone := List.find?_eq_none.mp hf x hx
    simp [hstrip] at hnone
  | some b =>
    have hb : isStrip b = false := by simpa [hf] using h
    have hor := List.find?_some hf
    have hservo : isServo b = true := by simpa [hb] using hor
    exact List.any_eq_true.mpr ⟨b, List.mem_of_find?_eq_some hf, hservo⟩

/-- Which group leads is settled by the first block that hoists. -/
theorem stripLeads_append (blocks : List Block) (b : Block) :
    stripLeads (blocks ++ [b]) =
      if blocks.any isServo || (lastStrip? blocks).isSome then stripLeads blocks else isStrip b := by
  unfold stripLeads
  rw [List.find?_append]
  cases hf : blocks.find? fun b => isServo b || isStrip b with
  | some x =>
    have hx := List.mem_of_find?_eq_some hf
    have hor : isServo x = true ∨ isStrip x = true := by simpa using List.find?_some hf
    have hany : (blocks.any isServo || (lastStrip? blocks).isSome) = true := by
      rw [Bool.or_eq_true, lastStrip?_isSome_iff, List.any_eq_true]
      exact hor.imp (fun h => ⟨x, hx, h⟩) (fun h => ⟨x, hx, h⟩)
    rw [if_pos hany]
    rfl
  | none =>
    have hnone : ∀ x ∈ blocks, isServo x = false ∧ isStrip x = false := by
      simpa using hf
    have hany : ¬ (blocks.any isServo || (lastStrip? blocks).isSome) = true := by
      rw [Bool.or_eq_true, lastStrip?_isSome_iff, List.any_eq_true]
      rintro (⟨x, hx, h⟩ | ⟨x, hx, h⟩)
      · simp [(hnone x hx).1] at h
      · simp [(hnone x hx).2] at h
    rw [if_neg hany]
    cases hs : isServo b <;> cases ht : isStrip b <;> simp [hs, ht]

variable {servo stripFirst : Bool} {strip? : Option Block}

/-- Writing the group of the servo: in place if it is there, else behind all others. -/
theorem put_servoGroup (hf : stripFirst = true → strip?.isSome = true)
    (hs : stripFirst = false → strip?.isSome = true → servo = true) :
    servoGroup.foldl (fun es e => Table.put e.1 e.2 es) (arrange servo strip? stripFirst) =
      arrange true strip? (if servo || strip?.isSome then stripFirst else false) := by
  cases servo <;> cases stripFirst <;> cases strip? <;>
    simp_all [arrange, servoGroup, stripGroup, Table.put]

/-- Writing the group of the strip, which replaces what stood there before. -/
theorem put_stripGroup (b : Block) (hf : stripFirst = true → strip?.isSome = true)
    (hs : stripFirst = false → strip?.isSome = true → servo = true) :
    (stripGroup b).foldl (fun es e => Table.put e.1 e.2 es) (arrange servo strip? stripFirst) =
      arrange servo (some b) (if servo || strip?.isSome then stripFirst else true) := by
  cases servo <;> cases stripFirst <;> cases strip? <;>
    simp_all [arrange, servoGroup, stripGroup, Table.put]

theorem not_isStrip_of_isServo {b : Block} (h : isServo b = true) : isStrip b = false := by
  have htype : b.typeId = "arduino_servo_define" := by simpa [isServo] using h
  simp [isStrip, htype]

/-- Writing the declarations of block after block gives those of all blocks. -/
theorem entries_ownDeclarations (blocks : List Block) :
    (Table.ofList (blocks.flatMap ownDeclarations)).entries = declarations blocks := by
  induction blocks using List.reverseRecOn with
  | nil => rfl
  | append_singleton blocks b ih =>
    have hf : stripLeads blocks = true → (lastStrip? blocks).isSome = true := isSome_of_stripLeads
    have hs : stripLeads blocks = false → (lastStrip? blocks).isSome = true →
        blocks.any isServo = true := any_of_not_stripLeads
    rw [List.flatMap_append, List.flatMap_singleton, Table.entries_ofList_append, ih]
    unfold declarations ownDeclarations
    rw [List.any_append, lastStrip?_append, stripLeads_append]
    cases hservo : isServo b with
    | true =>
      have hstrip := not_isStrip_of_isServo hservo
      have hput := put_servoGroup hf hs
      simpa [hservo, hstrip] using hput
    | false =>
      cases hstrip : isStrip b with
      | true =>
        have hput := put_stripGroup b hf hs
        simpa [hservo, hstrip] using hput
      | false =>
        -- Where nothing hoists the first block of a kind is still to come, and nothing is arranged.
        have hkeep : arrange (blocks.any isServo) (lastStrip? blocks) (stripLeads blocks) =
            arrange (blocks.any isServo) (lastStrip? blocks)
              (if blocks.any isServo || (lastStrip? blocks).isSome then stripLeads blocks
                else false) := by
          cases hl : stripLeads blocks with
          | false => simp
          | true => simp [hf hl]
        simpa [hservo, hstrip] using hkeep

end Arrange

section Written

theorem builtin_rule_iff {typeId : String} {rule : Rule}
    (h : Rules.builtin.get? typeId = some rule) :
    (rule = .servoDefine ↔ typeId = "arduino_servo_define") ∧
      (rule = .stripInit ↔ typeId = "neopixel_init") := by
  have hall : ∀ e ∈ Rules.builtin.entries, (e.2 = .servoDefine ↔ e.1 = "arduino_servo_define") ∧
      (e.2 = .stripInit ↔ e.1 = "neopixel_init") := by
    decide
  exact hall _ (Table.mem_of_get? h)

/-- Only the blocks of two types hoist anything. -/
theorem ownHoisted_builtin (w : Workspace) (b : Block) :
    ownHoisted (builtinContext w) b = if b.enabled then ownDeclarations b else [] := by
  unfold ownHoisted
  cases hb : b.enabled with
  | false => rfl
  | true =>
    rw [if_pos rfl, if_pos rfl]
    have hshapes : (Arduino.catalogue.shape? "arduino_servo_define").isSome = true ∧
        (Arduino.catalogue.shape? "neopixel_init").isSome = true := by decide
    cases hs : Arduino.catalogue.shape? b.typeId with
    | none =>
      have hservo : b.typeId ≠ "arduino_servo_define" := fun he => by simp [← he, hs] at hshapes
      have hstrip : b.typeId ≠ "neopixel_init" := fun he => by simp [← he, hs] at hshapes
      simp [builtinContext, hs, ownDeclarations, isServo, isStrip, hservo, hstrip]
    | some shape =>
      obtain ⟨rule, hr, -⟩ := builtin_rule hs
      obtain ⟨hservo, hstrip⟩ := builtin_rule_iff hr
      simp only [builtinContext, hs, hr, ownDeclarations, isServo, isStrip, beq_iff_eq, ← hservo,
        ← hstrip]
      by_cases h₁ : rule = .servoDefine
      · simp [h₁, Rule.hoisted, servoGroup]
      · by_cases h₂ : rule = .stripInit
        · simp [h₂, Rule.hoisted, stripGroup, builtinField, hs]
        · cases rule <;> simp_all [Rule.hoisted]

variable {c : Context}

mutual

/-- A tree hoists what its blocks hoist. -/
theorem Tree.Unfolds.hoisted_eq {place : Place} {at? : Option String} :
    ∀ {t : Tree}, t.Unfolds c place at? →
      t.hoisted c = (t.ids.filterMap c.workspace.get?).flatMap (ownHoisted c)
  | .leaf, _ => rfl
  | .node id b inputs next, h => by
    obtain ⟨-, hb, hinputs, hnext⟩ := h
    have hi := hinputs.hoisted_eq
    have hn := hnext.hoisted_eq
    simp [Tree.hoisted, Tree.ids, hb, hi, hn]

theorem Inputs.Unfold.hoisted_eq {b : Block} {sockets : List Socket} :
    ∀ {inputs : Inputs}, inputs.Unfold c b sockets →
      inputs.hoisted c = (inputs.ids.filterMap c.workspace.get?).flatMap (ownHoisted c)
  | .nil, _ => rfl
  | .cons s t others, h => by
    obtain ⟨rest, -, ht, ho⟩ := h
    have hfirst := ht.hoisted_eq
    have hothers := ho.hoisted_eq
    simp [Inputs.hoisted, Inputs.ids, hfirst, hothers]

end

theorem UnfoldRoots.hoisted_eq {roots : List String} {trees : List Tree}
    (h : UnfoldRoots c roots trees) :
    trees.flatMap (Tree.hoisted c) =
      ((trees.flatMap Tree.ids).filterMap c.workspace.get?).flatMap (ownHoisted c) := by
  induction h with
  | nil => rfl
  | cons ht _ ih => simp [ht.hoisted_eq, ih]

theorem flatMap_ownHoisted (w : Workspace) (blocks : List Block) :
    blocks.flatMap (ownHoisted (builtinContext w)) =
      (blocks.filter (·.enabled)).flatMap ownDeclarations := by
  induction blocks with
  | nil => rfl
  | cons b r ih =>
    rw [List.flatMap_cons, ih, ownHoisted_builtin]
    cases hb : b.enabled <;> simp [hb]

theorem assemble_eq_headerText (d : Table String) (body : String) :
    assemble d body = headerText d.values ++ body := by
  have hempty : d.isEmpty = true ↔ d.values = [] := by simp [Table.isEmpty, Table.values]
  unfold assemble headerText joinDefinitions
  by_cases h : d.values = []
  · simp [h, hempty.mpr h]
  · simp [h, hempty, String.append_assoc]

/-- Every block that was written had a text in each field that its rule reads. -/
theorem FoundForest.fault?_eq_none {roots : List String} {t t' : Trail} {trees : List Tree} {b : Block}
    (hf : FoundForest c 0 roots t t' trees)
    (hb : b ∈ ((trees.flatMap Tree.ids).filterMap c.workspace.get?).filter (·.enabled)) :
    ∃ shape rule, c.catalogue.shape? b.typeId = some shape ∧ c.rules.get? b.typeId = some rule ∧
      rule.fault? shape b = none := by
  obtain ⟨hmem, hen⟩ := List.mem_filter.mp hb
  obtain ⟨id, hid, hget⟩ := List.mem_filterMap.mp hmem
  rw [← map_id_forestVisits hf.unfold 0] at hid
  obtain ⟨v, hv, rfl⟩ := List.mem_map.mp hid
  have hwalked : ∀ v ∈ forestVisits c 0 roots trees, v.Walked c roots := hf.unfold.walked 0 (by simp)
  have hblock := (hwalked v hv).block
  rw [hget, Option.some.injEq] at hblock
  subst hblock
  obtain ⟨shape, rule, hs, hr, -, -, -, hfault⟩ := hf.admitted v hv hen
  exact ⟨shape, rule, hs, hr, hfault⟩

end Written

/-- In front of the texts of the roots stand the declarations of the blocks that were written, and
no others. -/
theorem generate_eq_header (w : Workspace) (roots : List String) (text : String)
    (h : generate (builtinContext w) roots = .ok text) :
    ∃ texts, (pass (builtinContext w) (builtinContext w).depth roots).1 = .ok texts ∧
      text = headerText ((declarations (rendered (builtinContext w) roots)).map Prod.snd) ++
        joinRoots texts ∧
      ∀ b ∈ rendered (builtinContext w) roots, isStrip b = true →
        ∃ shape, Arduino.catalogue.shape? b.typeId = some shape ∧
          readField shape b "NUM_LEDS" = .ok (builtinField b "NUM_LEDS") ∧
          readField shape b "PIN" = .ok (builtinField b "PIN") := by
  obtain ⟨texts, t, ho, rfl⟩ := pass_of_generate h
  obtain ⟨trees, hf, -⟩ := rootTexts_ok 0 ho
  have hrendered : rendered (builtinContext w) roots =
      ((trees.flatMap Tree.ids).filterMap (builtinContext w).workspace.get?).filter (·.enabled) := by
    rw [rendered, hf.entered_eq ho]
  refine ⟨texts, by rw [pass_eq_outcome, ho], ?_, ?_⟩
  · have htable : t.definitions = Table.ofList (trees.flatMap (Tree.hoisted (builtinContext w))) := by
      rw [hf.leaves.trail]
      rfl
    rw [assemble_eq_headerText, htable, hf.unfold.hoisted_eq, flatMap_ownHoisted, ← hrendered,
      Table.values, entries_ownDeclarations]
  · intro b hb hstrip
    rw [hrendered] at hb
    obtain ⟨shape, rule, hs, hr, hfault⟩ := hf.fault?_eq_none hb
    have htype : b.typeId = "neopixel_init" := by simpa [isStrip] using hstrip
    have hrule : rule = .stripInit := (builtin_rule_iff hr).2.mpr htype
    subst hrule
    have hfields := ((Rule.fault?_eq_none_iff shape b .stripInit).mp hfault).1
    have hs' : Arduino.catalogue.shape? b.typeId = some shape := hs
    refine ⟨shape, hs', ?_, ?_⟩
    · rw [readField_eq_fieldOf (hfields "NUM_LEDS" (by decide)), builtinField, hs']
    · rw [readField_eq_fieldOf (hfields "PIN" (by decide)), builtinField, hs']

/-- A loop with a block for the servo between two for the strip, and one behind them that is not
enabled. Another root is for the servo again. -/
def hoistingWorkspace : Workspace :=
  Document.workspaceOf
    [{ id := "l", typeId := "arduino_loop", statements := Table.ofList [("LOOP", "a")] },
      { id := "a", typeId := "neopixel_init", next := some "v" },
      { id := "v", typeId := "arduino_servo_define", next := some "z" },
      { id := "z", typeId := "neopixel_init", fields := Table.ofList [("NUM_LEDS", .text "8")]
        next := some "y" },
      { id := "y", typeId := "neopixel_init", fields := Table.ofList [("NUM_LEDS", .text "99")]
        enabled := false },
      { id := "q", typeId := "arduino_servo_define" }]

def hoistingContext : Context := builtinContext hoistingWorkspace

theorem generate_eq_header_hoisting :
    ∃ text, generate hoistingContext ["l", "q"] = .ok text ∧
      (declarations (rendered hoistingContext ["l", "q"])).map Prod.snd =
        ["#include <Adafruit_NeoPixel.h>", "Adafruit_NeoPixel strip(8, 6, NEO_GRB + NEO_KHZ800);",
          "#include <Servo.h>", "Servo myservo;\nint pos = 0;"] ∧
      ∃ texts, (pass hoistingContext hoistingContext.depth ["l", "q"]).1 = .ok texts ∧
        text = headerText ((declarations (rendered hoistingContext ["l", "q"])).map Prod.snd) ++
          joinRoots texts ∧
        ∀ b ∈ rendered hoistingContext ["l", "q"], isStrip b = true →
          ∃ shape, Arduino.catalogue.shape? b.typeId = some shape ∧
            readField shape b "NUM_LEDS" = .ok (builtinField b "NUM_LEDS") ∧
            readField shape b "PIN" = .ok (builtinField b "PIN") := by
  have hok : (generate hoistingContext ["l", "q"]).isOk = true := by decide +kernel
  cases h : generate hoistingContext ["l", "q"] with
  | error f => simp [h, Except.isOk, Except.toBool] at hok
  | ok text =>
    exact ⟨text, rfl, by decide +kernel, generate_eq_header hoistingWorkspace ["l", "q"] text h⟩

end BlockSketch.Program
