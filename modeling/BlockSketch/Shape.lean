import BlockSketch.Block
import BlockSketch.Decimal.Natural

namespace BlockSketch

/-- What a field accepts. -/
inductive FieldKind where
  | number (min : Option Float)
  | text
  | choice (options : List (String × String))
  deriving Repr

structure FieldSpec where
  name : String
  kind : FieldKind
  default : FieldValue
  identifier : Bool := false
  deriving Repr

namespace FieldSpec

def number (name : String) (default : Float) : FieldSpec :=
  ⟨name, .number none, .number default, false⟩

def numberFrom (name : String) (default min : Float) : FieldSpec :=
  ⟨name, .number (some min), .number default, false⟩

def text (name default : String) : FieldSpec := ⟨name, .text, .text default, false⟩

def variableName (name default : String) : FieldSpec := ⟨name, .text, .text default, true⟩

/-- A choice among labelled values; the first is the default. -/
def labelledChoice (name : String) (options : List (String × String)) : FieldSpec :=
  ⟨name, .choice options, .text ((options.head?.map Prod.snd).getD ""), false⟩

/-- A choice among values that are their own labels. -/
def choice (name : String) (options : List String) : FieldSpec :=
  labelledChoice name (options.map fun v => (v, v))

end FieldSpec

/-- Whether a block is a step of a chain or an operand. -/
inductive Output where
  | statement
  | value
  deriving DecidableEq, Repr

/-- A slot for one operand, with the literal that stands for an absent one. -/
structure ValueSlot where
  name : String
  default : String
  deriving DecidableEq, Repr

/-- The slot names of a block whose number of branches varies. -/
structure Arity where
  conditionStem : String
  bodyStem : String
  elseSlot : String
  conditionDefault : String
  deriving DecidableEq, Repr

/-- A stem followed by the decimal digits of an index. -/
def indexedSlot (stem : String) (index : Nat) : String :=
  stem ++ String.ofList (Decimal.digitText index)

theorem indexedSlot_inj {stem : String} {i j : Nat}
    (h : indexedSlot stem i = indexedSlot stem j) : i = j := by
  have hd : String.ofList (Decimal.digitText i) = String.ofList (Decimal.digitText j) :=
    String.append_right_inj stem |>.mp h
  exact Decimal.digitText_inj (String.ofList_injective hd)

/-- Whether `name` is the stem followed by an index up to `count` in canonical decimal. -/
def isIndexedSlot (stem name : String) (count : Nat) : Bool :=
  stem.toList.isPrefixOf name.toList &&
    let index := name.toList.drop stem.toList.length
    let n := Decimal.natOfDigits index
    index == Decimal.digitText n && decide (n ≤ count)

/-- The canonical spellings are those of the indices up to `count`. -/
theorem isIndexedSlot_iff {stem name : String} {count : Nat} :
    isIndexedSlot stem name count = true ↔ ∃ i, i ≤ count ∧ name = indexedSlot stem i := by
  unfold isIndexedSlot
  simp only [Bool.and_eq_true, beq_iff_eq, decide_eq_true_eq]
  constructor
  · rintro ⟨hstem, hdigits, hle⟩
    obtain ⟨rest, hrest⟩ := List.isPrefixOf_iff_prefix.mp hstem
    have hdrop : name.toList.drop stem.toList.length = rest := by simp [← hrest]
    rw [hdrop] at hdigits hle
    refine ⟨Decimal.natOfDigits rest, hle, ?_⟩
    rw [← String.toList_inj, indexedSlot, ← hdigits, String.toList_append, String.toList_ofList, hrest]
  · rintro ⟨i, hle, rfl⟩
    have hname : (indexedSlot stem i).toList = stem.toList ++ Decimal.digitText i := by
      simp [indexedSlot]
    rw [hname, List.drop_left, Decimal.natOfDigits_digitText]
    exact ⟨List.isPrefixOf_iff_prefix.mpr (List.prefix_append _ _), rfl, hle⟩

namespace Arity

def conditionSlot (a : Arity) (index : Nat) : String := indexedSlot a.conditionStem index

def bodySlot (a : Arity) (index : Nat) : String := indexedSlot a.bodyStem index

end Arity

/-- How the editor shows a type. -/
structure Presentation where
  label : String
  colour : Nat := 0
  tooltip : Option String := none
  category : Option String := none
  deriving DecidableEq, Repr

structure Shape where
  output : Output
  fields : List FieldSpec := []
  statementSlots : List String := []
  valueSlots : List ValueSlot := []
  /-- The rank of a program entry, which stands alone at the top level. -/
  entryRank : Option UInt8 := none
  arity : Option Arity := none
  presentation : Presentation
  deriving Repr

namespace Shape

def isStatement (s : Shape) : Bool := s.output == .statement

def isValue (s : Shape) : Bool := s.output == .value

def isEntry (s : Shape) : Bool := s.entryRank.isSome

/-- Whether blocks may stand before and after it in a chain. -/
def isChainable (s : Shape) : Bool := s.isStatement && !s.isEntry

@[simp] theorem isStatement_iff (s : Shape) : s.isStatement = true ↔ s.output = .statement := by
  simp [isStatement]

@[simp] theorem isValue_iff (s : Shape) : s.isValue = true ↔ s.output = .value := by
  simp [isValue]

@[simp] theorem isChainable_iff (s : Shape) :
    s.isChainable = true ↔ s.output = .statement ∧ s.isEntry = false := by
  simp [isChainable]

def field? (s : Shape) (name : String) : Option FieldSpec := s.fields.find? (·.name == name)

def valueSlot? (s : Shape) (name : String) : Option ValueSlot :=
  s.valueSlots.find? (·.name == name)

/-- The literal for an empty value slot: the slot's own, or that of a condition. -/
def defaultLiteral? (s : Shape) (slot : String) : Option String :=
  match s.valueSlot? slot with
  | some v => some v.default
  | none =>
    s.arity.bind fun a =>
      if a.conditionStem.toList.isPrefixOf slot.toList then some a.conditionDefault else none

def acceptsValue (s : Shape) (slot : String) (m : Mutation) : Bool :=
  s.valueSlots.any (·.name == slot) ||
    match s.arity with
    | some a => isIndexedSlot a.conditionStem slot m.elseIfCount
    | none => false

def acceptsStatement (s : Shape) (slot : String) (m : Mutation) : Bool :=
  s.statementSlots.contains slot ||
    match s.arity with
    | some a => (m.hasElse && slot == a.elseSlot) || isIndexedSlot a.bodyStem slot m.elseIfCount
    | none => false

end Shape

end BlockSketch
