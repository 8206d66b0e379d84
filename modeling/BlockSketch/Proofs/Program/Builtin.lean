import BlockSketch.Catalogue.Arduino
import BlockSketch.Proofs.Program.Template

namespace BlockSketch

theorem Arduino.entries_types : Arduino.catalogue.types.entries = Arduino.types := by rfl

theorem Arduino.mem_types {typeId : String} {shape : Shape}
    (h : Arduino.catalogue.shape? typeId = some shape) : (typeId, shape) ∈ Arduino.types := by
  rw [← Arduino.entries_types]
  exact Table.mem_of_get? h

namespace Program

def builtinContext (w : Workspace) : Context := ⟨Arduino.catalogue, Rules.builtin, w⟩

theorem builtin_rule {typeId : String} {shape : Shape}
    (h : Arduino.catalogue.shape? typeId = some shape) :
    ∃ rule, Rules.builtin.get? typeId = some rule ∧ rule.output = shape.output := by
  have hall : ∀ e ∈ Arduino.types, (Rules.builtin.get? e.1).map Rule.output = some e.2.output := by
    decide
  have hrule := hall _ (Arduino.mem_types h)
  exact Option.map_eq_some_iff.mp hrule

end Program

end BlockSketch
