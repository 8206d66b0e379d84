import BlockSketch.Proofs.Decimal.Numeral
import BlockSketch.Proofs.Program.Template

namespace BlockSketch

/-- The value may stand in a field of this kind: a number, or a text that reads as one, is finite and
not below the minimum, and a choice is the text of an option. -/
def FieldKind.Allows : FieldKind → FieldValue → Prop
  | .number min, v => ∃ n, v.number? = some n ∧ n.isFinite = true ∧ ∀ m, min = some m → ¬ n < m
  | .text, _ => True
  | .choice options, v => ∃ s, v = .text s ∧ s ∈ options.map Prod.snd

namespace Program

theorem fieldText_number {min : Option Float} {v : FieldValue} {s : String}
    (h : fieldText (.number min) v = .ok s) :
    ∃ n, v.number? = some n ∧ n.isFinite = true ∧ (∀ m, min = some m → ¬ n < m) ∧
      s = Decimal.plainText n := by
  simp only [fieldText] at h
  cases hn : v.number? with
  | none => simp [hn] at h
  | some n =>
    simp only [hn] at h
    split_ifs at h with hf
    cases min with
    | none =>
      simp only [Except.ok.injEq] at h
      exact ⟨n, rfl, hf, by simp, h.symm⟩
    | some m =>
      simp only at h
      split_ifs at h with hm
      simp only [Except.ok.injEq] at h
      exact ⟨n, rfl, hf, by simpa using hm, h.symm⟩

theorem fieldText_choice {options : List (String × String)} {v : FieldValue} {s : String}
    (h : fieldText (.choice options) v = .ok s) : v = .text s ∧ s ∈ options.map Prod.snd := by
  cases v with
  | number n => simp [fieldText] at h
  | text s' =>
    simp only [fieldText] at h
    split_ifs at h with ho
    simp only [Except.ok.injEq] at h
    subst h
    refine ⟨rfl, ?_⟩
    simpa [List.any_eq_true] using ho

theorem fieldText_number_iff {min : Option Float} {v : FieldValue} {s : String} :
    fieldText (.number min) v = .ok s ↔ ∃ n, v.number? = some n ∧ n.isFinite = true ∧
      (∀ m, min = some m → ¬ n < m) ∧ s = Decimal.plainText n := by
  refine ⟨fieldText_number, ?_⟩
  rintro ⟨n, hn, hf, hm, rfl⟩
  cases min with
  | none => simp [fieldText, hn, hf]
  | some m => simp [fieldText, hn, hf, hm m rfl]

theorem fieldText_choice_iff {options : List (String × String)} {v : FieldValue} {s : String} :
    fieldText (.choice options) v = .ok s ↔ v = .text s ∧ s ∈ options.map Prod.snd := by
  refine ⟨fieldText_choice, ?_⟩
  rintro ⟨rfl, hs⟩
  have ho : options.any (·.2 == s) = true := by simpa [List.any_eq_true] using hs
  simp [fieldText, ho]

/-- A value has a text exactly if its kind allows it. -/
theorem exists_fieldText_iff (kind : FieldKind) (v : FieldValue) :
    (∃ s, fieldText kind v = .ok s) ↔ kind.Allows v := by
  cases kind with
  | number min =>
    simp only [fieldText_number_iff, FieldKind.Allows]
    constructor
    · rintro ⟨s, n, hn, hf, hm, -⟩
      exact ⟨n, hn, hf, hm⟩
    · rintro ⟨n, hn, hf, hm⟩
      exact ⟨_, n, hn, hf, hm, rfl⟩
  | text => exact ⟨fun _ => trivial, fun _ => ⟨_, rfl⟩⟩
  | choice options => simp only [fieldText_choice_iff, FieldKind.Allows]

def fieldValue (b : Block) (name : String) (spec : FieldSpec) : FieldValue :=
  (b.fields.get? name).getD spec.default

/-- A field of a block is declared and holds a value of its kind. -/
def HasField (shape : Shape) (b : Block) (name : String) : Prop :=
  ∃ spec, shape.field? name = some spec ∧ spec.kind.Allows (fieldValue b name spec)

theorem exists_readField_iff (shape : Shape) (b : Block) (name : String) :
    (∃ s, readField shape b name = .ok s) ↔ HasField shape b name := by
  cases h : shape.field? name with
  | none => simp [readField, HasField, h]
  | some spec =>
    simp only [readField, HasField, h, Option.some.injEq, exists_eq_left']
    exact exists_fieldText_iff spec.kind (fieldValue b name spec)

theorem readField_eq_fieldOf {shape : Shape} {b : Block} {name : String}
    (h : HasField shape b name) : readField shape b name = .ok (fieldOf shape b name) := by
  obtain ⟨s, hs⟩ := (exists_readField_iff shape b name).mpr h
  simp [fieldOf, hs]

theorem fieldFault?_eq_none_iff (shape : Shape) (b : Block) (names : List String) :
    fieldFault? shape b names = none ↔ ∀ name ∈ names, HasField shape b name := by
  induction names with
  | nil => simp [fieldFault?]
  | cons name names ih =>
    rw [List.forall_mem_cons, ← ih, ← exists_readField_iff]
    cases h : readField shape b name <;> simp [fieldFault?, h]

theorem Rule.fault?_eq_none_iff (shape : Shape) (b : Block) (rule : Rule) :
    rule.fault? shape b = none ↔
      (∀ name ∈ rule.fields, HasField shape b name) ∧
        (rule = .operation → (operator? (fieldOf shape b "OP")).isSome = true) := by
  rw [← fieldFault?_eq_none_iff, Rule.fault?]
  cases fieldFault? shape b rule.fields with
  | some fault => simp
  | none =>
    by_cases hr : rule = .operation
    · cases operator? (fieldOf shape b "OP") <;> simp [hr]
    · simp [hr]

end Program

end BlockSketch
