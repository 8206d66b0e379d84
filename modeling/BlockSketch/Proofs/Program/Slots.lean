import BlockSketch.Catalogue.Arduino
import BlockSketch.Proofs.Program.Template

namespace BlockSketch

/-- Reads a word of 64 bits: digits, maybe with a plus in front and zeros before the others. A number that is
no word is refused. -/
def Decimal.readWord? (s : List Char) : Option Nat :=
  let digits := if s.head? = some '+' then s.tail else s
  if digits ≠ [] ∧ digits.all Char.isDigit = true ∧ natOfDigits digits < UInt64.size then
    some (natOfDigits digits)
  else none

theorem Decimal.readWord?_digitText {n : Nat} (h : n < UInt64.size) :
    readWord? (digitText n) = some n := by
  have hdigit : ∀ c ∈ digitText n, c.isDigit = true := fun c hc => isDigit_of_mem_digitText hc
  have hplus : (digitText n).head? ≠ some '+' := by
    intro hhead
    exact absurd (hdigit '+' (List.mem_of_mem_head? hhead)) (by decide)
  have hne : digitText n ≠ [] := Nat.toDigits_ne_nil
  simp only [readWord?, if_neg hplus, natOfDigits_digitText]
  exact if_pos ⟨hne, List.all_eq_true.mpr hdigit, h⟩

/-- The name of an indexed slot is a stem and a word that is spelt as it is written: reading the word, and
writing it again, tells the canonical names from all others. -/
theorem isIndexedSlot_iff_readWord? {stem name : String} {count : Nat} (h : count < UInt64.size) :
    isIndexedSlot stem name count = true ↔
      ∃ rest index, name.toList = stem.toList ++ rest ∧ Decimal.readWord? rest = some index ∧
        index ≤ count ∧ rest = Decimal.digitText index := by
  rw [isIndexedSlot_iff]
  constructor
  · rintro ⟨i, hle, rfl⟩
    refine ⟨Decimal.digitText i, i, by simp [indexedSlot], ?_, hle, rfl⟩
    exact Decimal.readWord?_digitText (Nat.lt_of_le_of_lt hle h)
  · rintro ⟨rest, index, hname, -, hle, rfl⟩
    refine ⟨index, hle, ?_⟩
    rw [← String.toList_inj, hname, indexedSlot, String.toList_append, String.toList_ofList]

namespace Shape

variable (shape : Shape) (m : Mutation) (slot : String)

theorem acceptsValue_iff :
    shape.acceptsValue slot m = true ↔ (∃ v ∈ shape.valueSlots, v.name = slot) ∨
      ∃ a, shape.arity = some a ∧ ∃ i, i ≤ m.elseIfCount ∧ slot = a.conditionSlot i := by
  cases h : shape.arity with
  | none => simp [acceptsValue, h]
  | some a => simp [acceptsValue, h, isIndexedSlot_iff, Arity.conditionSlot]

theorem acceptsStatement_iff :
    shape.acceptsStatement slot m = true ↔ slot ∈ shape.statementSlots ∨
      ∃ a, shape.arity = some a ∧ (m.hasElse = true ∧ slot = a.elseSlot ∨
        ∃ i, i ≤ m.elseIfCount ∧ slot = a.bodySlot i) := by
  cases h : shape.arity with
  | none => simp [acceptsStatement, h]
  | some a => simp [acceptsStatement, h, isIndexedSlot_iff, Arity.bodySlot]

end Shape

/-- The type of if blocks declares the slots of the first branch, and names those of the others. -/
theorem Arduino.shape?_branch : ∃ shape, Arduino.catalogue.shape? "arduino_if_else" = some shape ∧
    shape.valueSlots = [⟨indexedSlot "IF" 0, "false"⟩] ∧ shape.statementSlots = [indexedSlot "DO" 0] ∧
    shape.arity = some ⟨"IF", "DO", "ELSE", "false"⟩ :=
  ⟨_, rfl, by decide, by decide, rfl⟩

namespace Program

section Branches

variable (m : Mutation)

theorem mem_branch_sockets_iff (s : Socket) :
    s ∈ Rule.branch.sockets m ↔
      (∃ i, i ≤ m.elseIfCount ∧ s ∈ armSockets i) ∨ m.hasElse = true ∧ s = .statement "ELSE" := by
  have harms : armSockets 0 ++ (List.range' 1 m.elseIfCount).flatMap armSockets =
      (List.range' 0 (m.elseIfCount + 1)).flatMap armSockets := rfl
  have helse : s ∈ (if m.hasElse then [Socket.statement "ELSE"] else []) ↔
      m.hasElse = true ∧ s = .statement "ELSE" := by
    cases m.hasElse <;> simp
  rw [Rule.sockets, harms, List.mem_append, List.mem_flatMap, helse]
  refine or_congr_left (exists_congr fun i => and_congr_left fun _ => ?_)
  rw [List.mem_range'_1]
  omega

theorem value_mem_branch_sockets_iff (slot : String) :
    .value slot ∈ Rule.branch.sockets m ↔ ∃ i, i ≤ m.elseIfCount ∧ slot = indexedSlot "IF" i := by
  simp [mem_branch_sockets_iff, armSockets]

theorem statement_mem_branch_sockets_iff (slot : String) :
    .statement slot ∈ Rule.branch.sockets m ↔
      m.hasElse = true ∧ slot = "ELSE" ∨ ∃ i, i ≤ m.elseIfCount ∧ slot = indexedSlot "DO" i := by
  simp [mem_branch_sockets_iff, armSockets, or_comm]

/-- An if block has no fields and hoists nothing: it is written by reading its sockets. -/
theorem run_branch (shape : Shape) (b : Block) (operand : String → Order → Walk String)
    (body : String → Walk String) (absent : Socket → String) :
    (Rule.branch.plan b.mutation).run shape b operand body = do
      let text ← readSockets (readSocket operand body .loosest) absent (Rule.branch.sockets b.mutation)
      return Rule.branch.render b.mutation (fieldOf shape b) text :=
  run_branchPlan shape b operand body absent

end Branches

/-- A type accepts the slots that it declares and the canonical names of the branches that a block
has. The rule for if blocks reads just these. -/
theorem accepted_slots (shape : Shape) (m : Mutation) :
    (∀ slot, shape.acceptsValue slot m = true ↔ (∃ v ∈ shape.valueSlots, v.name = slot) ∨
      ∃ a, shape.arity = some a ∧ ∃ i, i ≤ m.elseIfCount ∧ slot = a.conditionSlot i) ∧
    (∀ slot, shape.acceptsStatement slot m = true ↔ slot ∈ shape.statementSlots ∨
      ∃ a, shape.arity = some a ∧ (m.hasElse = true ∧ slot = a.elseSlot ∨
        ∃ i, i ≤ m.elseIfCount ∧ slot = a.bodySlot i)) ∧
    ∃ branch rule sockets, Arduino.catalogue.shape? "arduino_if_else" = some branch ∧
      Rules.builtin.get? "arduino_if_else" = some rule ∧
      (∀ slot, branch.acceptsValue slot m = true ↔ .value slot ∈ sockets) ∧
      (∀ slot, branch.acceptsStatement slot m = true ↔ .statement slot ∈ sockets) ∧
      ∀ b : Block, ∃ write : (Socket → String) → Rendered, ∀ operand body,
        (rule.plan m).run branch { b with mutation := m } operand body = do
          let text ← readSockets (readSocket operand body .loosest) (fun _ => "") sockets
          return write text := by
  refine ⟨shape.acceptsValue_iff m, shape.acceptsStatement_iff m, ?_⟩
  obtain ⟨branch, hshape, hvalues, hstatements, harity⟩ := Arduino.shape?_branch
  refine ⟨branch, .branch, Rule.branch.sockets m, hshape, rfl, fun slot => ?_, fun slot => ?_, ?_⟩
  · rw [Shape.acceptsValue_iff, value_mem_branch_sockets_iff, hvalues, harity]
    simp only [List.mem_singleton, exists_eq_left, Option.some.injEq, exists_eq_left', Arity.conditionSlot]
    exact or_iff_right_of_imp fun h => ⟨0, Nat.zero_le _, h.symm⟩
  · rw [Shape.acceptsStatement_iff, statement_mem_branch_sockets_iff, hstatements, harity]
    simp only [List.mem_singleton, Option.some.injEq, exists_eq_left', Arity.bodySlot]
    exact or_iff_right_of_imp fun h => .inr ⟨0, Nat.zero_le _, h⟩
  · intro b
    exact ⟨_, fun operand body => run_branch branch { b with mutation := m } operand body _⟩

end Program

end BlockSketch
