import BlockSketch.Proofs.Program.Builtin
import BlockSketch.Proofs.Program.Explanation

namespace BlockSketch.Program

/-- Every block is met in one role: always as an operand, or never. -/
def OneRole (c : Context) (roots : List String) : Prop :=
  ∀ r r' place place' id, Walked c roots r place id → Walked c roots r' place' id →
    (place = .operand ↔ place' = .operand)

section

variable {c : Context} {roots : List String} {r : Reference} {place : Place} {id n : String}

theorem follows_congr {place' : Place} (h : place = .operand ↔ place' = .operand) (b : Block) :
    c.follows place b = c.follows place' b := by
  unfold Context.follows
  by_cases hp : place = .operand
  · rw [if_pos hp, if_pos (h.mp hp)]
  · have hp' : place' ≠ .operand := fun he => hp (h.mpr he)
    rw [if_neg hp, if_neg hp']

/-- Where blocks have one role each, a walked link is followed from every place of its block. -/
theorem onward_of_linksTo (hone : OneRole c roots) (hw : Walked c roots r place id)
    (h : LinksTo c roots id n) : ∃ place', c.Onward (place, id) (place', n) := by
  obtain ⟨r', place', b, s, hw', hb, hs, hn⟩ := h
  have hrole := hone r' r place' place id hw' hw
  rw [follows_congr hrole] at hs
  exact ⟨placeAt s, b, s, hb, hs, hn, rfl⟩

theorem returns_of_leadsTo (hone : OneRole c roots) (hw : Walked c roots r place id)
    (h : LeadsTo c roots id id) : c.Returns place id := by
  have hall : ∀ n, LeadsTo c roots id n → ∃ r' place', Walked c roots r' place' n ∧
      Relation.TransGen c.Onward (place, id) (place', n) := by
    intro n hn
    induction hn with
    | single hlink =>
      obtain ⟨place', hstep⟩ := onward_of_linksTo hone hw hlink
      obtain ⟨-, r', hw'⟩ := Walked.onward hw hstep
      exact ⟨r', place', hw', .single hstep⟩
    | tail _ hlink ih =>
      obtain ⟨r', place', hw', hpath⟩ := ih
      obtain ⟨place'', hstep⟩ := onward_of_linksTo hone hw' hlink
      obtain ⟨-, r'', hw''⟩ := Walked.onward hw' hstep
      exact ⟨r'', place'', hw'', hpath.tail hstep⟩
  obtain ⟨r', place', -, hpath⟩ := hall id h
  exact ⟨place', hpath⟩

end

/-- A block that is named again after it was entered is cyclic if links lead back to it from the
place where it was entered, and shared if they do not. -/
theorem cyclic_or_shared (c : Context) (roots : List String) (id : String) :
    (generate c roots = .error (.cyclic id) →
      (∃ v stop, NamedAgain c roots (entered c roots) id v stop ∧ c.Returns v.place id) ∧
        LeadsTo c roots id id) ∧
    (generate c roots = .error (.shared id) →
      (∃ v stop, NamedAgain c roots (entered c roots) id v stop ∧ ¬ c.Returns v.place id) ∧
        (OneRole c roots → ¬ LeadsTo c roots id id)) := by
  constructor
  · intro h
    have hback : LeadsBack c roots (entered c roots) id := generate_halt h
    have hexplained : (Fault.cyclic id).Explained c roots := generate_explained h
    exact ⟨hback, hexplained.1⟩
  · intro h
    have hleft : LeftBehind c roots (entered c roots) id := generate_halt h
    refine ⟨hleft, fun hone hlead => ?_⟩
    obtain ⟨v, stop, hagain, hreturns⟩ := hleft
    have hid : v.id = id := by simpa using List.find?_some hagain.entrance
    exact hreturns (returns_of_leadsTo hone (hid ▸ hagain.visit.reference) hlead)

/-- A loop whose condition is also the block behind it. -/
def tangledLoop : Block :=
  { id := "x", typeId := "arduino_while", values := Table.ofList [("WHILE0", "b")]
    next := some "b" }

/-- A block that is not enabled, and follows itself. -/
def tangledStep : Block :=
  { id := "b", typeId := "arduino_delay", enabled := false, next := some "b" }

def tangledContext : Context := builtinContext (Document.workspaceOf [tangledLoop, tangledStep])

/-- The same block is cyclic or shared, as the place has it where it was entered. -/
theorem cyclic_or_shared_tangled :
    (generate tangledContext ["b"] = .error (.cyclic "b") ∧
      (tangledContext.entrance? ["b"] "b").map Visit.place = some .top ∧
      (∃ v stop, NamedAgain tangledContext ["b"] (entered tangledContext ["b"]) "b" v stop ∧
        tangledContext.Returns v.place "b") ∧ LeadsTo tangledContext ["b"] "b" "b") ∧
    (generate tangledContext ["x"] = .error (.shared "b") ∧
      (tangledContext.entrance? ["x"] "b").map Visit.place = some .operand ∧
      (∃ v stop, NamedAgain tangledContext ["x"] (entered tangledContext ["x"]) "b" v stop ∧
        ¬ tangledContext.Returns v.place "b") ∧
      (OneRole tangledContext ["x"] → ¬ LeadsTo tangledContext ["x"] "b" "b")) :=
  ⟨⟨rfl, by decide +kernel, (cyclic_or_shared tangledContext ["b"] "b").1 rfl⟩,
    rfl, by decide +kernel, (cyclic_or_shared tangledContext ["x"] "b").2 rfl⟩

/-- Walked links may lead back to a block that is reported as shared: it was entered as the condition
of the loop, and is its own successor in the chain behind the loop. -/
theorem shared_leadsTo_self :
    generate tangledContext ["x"] = .error (.shared "b") ∧
      LeadsTo tangledContext ["x"] "b" "b" := by
  have hloop : tangledContext.workspace.get? "x" = some tangledLoop := rfl
  have hstep : tangledContext.workspace.get? "b" = some tangledStep := rfl
  have hroot : Walked tangledContext ["x"] (.root 0) (tangledContext.rootPlace "x") "x" := .root rfl
  have hbehind : .next ∈ tangledContext.follows (tangledContext.rootPlace "x") tangledLoop := by
    decide +kernel
  have hchain : Walked tangledContext ["x"] (.link "x" .next) .chain "b" :=
    .link hroot hloop hbehind rfl
  have hself : .next ∈ tangledContext.follows .chain tangledStep := by decide +kernel
  exact ⟨rfl, .single ⟨.link "x" .next, .chain, tangledStep, .next, hchain, hstep, hself, rfl⟩⟩

end BlockSketch.Program
