import BlockSketch.Proofs.Program.Fields
import BlockSketch.Proofs.Program.Builtin

namespace BlockSketch.Program

/-- How a field of a block is declared, if it is. -/
def declaration? (c : Catalogue) (b : Block) (name : String) : Option FieldSpec :=
  (c.shape? b.typeId).bind (·.field? name)

/-- The text of a field of a block, or the fault that it has. -/
def fieldIn (c : Catalogue) (b : Block) (name : String) : Except Fault String :=
  match c.shape? b.typeId with
  | some shape => (readField shape b name).mapError (.malformedField b.id name)
  | none => .error (.unknownType b.id b.typeId)

/-- A walk that does no more than to answer, or to fail. -/
def answer {α : Type} : Except Fault α → Walk α
  | .ok a => return a
  | .error f => fail f

section Fields

variable {c : Catalogue} {b : Block} {name s : String} {shape : Shape} {spec : FieldSpec}

theorem fieldIn_of_shape (h : c.shape? b.typeId = some shape) :
    fieldIn c b name = (readField shape b name).mapError (.malformedField b.id name) := by
  rw [fieldIn, h]

/-- This is the text that a plan goes on with. -/
theorem run_field_eq_answer (h : c.shape? b.typeId = some shape)
    (operand : String → Order → Walk String) (body : String → Walk String) (k : String → Plan) :
    (Plan.field name k).run shape b operand body =
      answer (fieldIn c b name) >>= fun s => (k s).run shape b operand body := by
  rw [fieldIn_of_shape h]
  cases hr : readField shape b name with
  | ok s => simp [Plan.run, hr, Except.mapError, answer]
  | error why => simp [Plan.run, hr, Except.mapError, answer, fail_bind]

theorem fieldIn_eq_ok_iff_of_shape (h : c.shape? b.typeId = some shape) :
    fieldIn c b name = .ok s ↔ readField shape b name = .ok s := by
  rw [fieldIn_of_shape h]
  cases readField shape b name <;> simp [Except.mapError]

/-- A field has a text exactly if it is declared, and then it is that of its value. -/
theorem fieldIn_eq_ok_iff (h : declaration? c b name = some spec) :
    fieldIn c b name = .ok s ↔ fieldText spec.kind (fieldValue b name spec) = .ok s := by
  obtain ⟨shape, hshape, hspec⟩ := Option.bind_eq_some_iff.mp h
  rw [fieldIn_eq_ok_iff_of_shape hshape, readField, hspec]
  rfl

end Fields

/-- Which values of a field for numbers or of one with choices have a text, and what it is. -/
theorem field_texts_plain (c : Catalogue) (b : Block) (name : String) (spec : FieldSpec)
    (hspec : declaration? c b name = some spec) :
    (∀ min, spec.kind = .number min → ∀ s,
      (fieldIn c b name = .ok s ↔ ∃ n, (fieldValue b name spec).number? = some n ∧
        n.isFinite = true ∧ (∀ m, min = some m → ¬ n < m) ∧ s = Decimal.plainText n) ∧
      (fieldIn c b name = .ok s → Decimal.IsSigned s.toList)) ∧
    ∀ options, spec.kind = .choice options → ∀ s,
      (fieldIn c b name = .ok s ↔ fieldValue b name spec = .text s ∧ s ∈ options.map Prod.snd) := by
  refine ⟨fun min hmin s => ?_, fun options hoptions s => ?_⟩
  · have htext : fieldIn c b name = .ok s ↔ ∃ n, (fieldValue b name spec).number? = some n ∧
        n.isFinite = true ∧ (∀ m, min = some m → ¬ n < m) ∧ s = Decimal.plainText n := by
      rw [fieldIn_eq_ok_iff hspec, hmin, fieldText_number_iff]
    refine ⟨htext, fun h => ?_⟩
    obtain ⟨n, -, hfinite, -, rfl⟩ := htext.mp h
    exact Decimal.isSigned_plainText hfinite
  · rw [fieldIn_eq_ok_iff hspec, hoptions, fieldText_choice_iff]

def waiting (s : String) : Block :=
  { id := "d", typeId := "arduino_delay", fields := Table.ofList [("DELAY", .text s)] }

/-- A number with an exponent is written without one, and one below the minimum has no text. -/
theorem field_texts_plain_waiting :
    fieldIn Arduino.catalogue (waiting " +1.5e-3\t") "DELAY" = .ok "0.0015" ∧
      Decimal.IsSigned "0.0015".toList ∧
      ∀ s, fieldIn Arduino.catalogue (waiting "-1e-9") "DELAY" ≠ .ok s := by
  have hspec (s : String) : declaration? Arduino.catalogue (waiting s) "DELAY" =
      some (.numberFrom "DELAY" 1000 0) := rfl
  have hwritten : fieldIn Arduino.catalogue (waiting " +1.5e-3\t") "DELAY" = .ok "0.0015" := by
    have h : (fieldIn Arduino.catalogue (waiting " +1.5e-3\t") "DELAY").toOption = some "0.0015" := by
      decide +kernel
    exact eq_ok_of_toOption h
  refine ⟨hwritten, ((field_texts_plain _ _ _ _ (hspec _)).1 _ rfl _).2 hwritten, fun s h => ?_⟩
  obtain ⟨n, hn, -, hmin, -⟩ := ((field_texts_plain _ _ _ _ (hspec _)).1 _ rfl s).1.mp h
  have hbelow : ((fieldValue (waiting "-1e-9") "DELAY" (.numberFrom "DELAY" 1000 0)).number?.all
      fun n => decide (n < 0)) = true := by
    decide +kernel
  rw [hn, Option.all_some, decide_eq_true_eq] at hbelow
  exact hmin 0 rfl hbelow

end BlockSketch.Program
