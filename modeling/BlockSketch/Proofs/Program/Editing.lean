import BlockSketch.Proofs.Document.Safety
import BlockSketch.Proofs.Program.Enactment
import BlockSketch.Proofs.Program.Soundness
import BlockSketch.Proofs.Workspace.Integrity

namespace BlockSketch.Program

/-- In a sound graph no walked links lead from a block back to it: the first of its blocks that the walk
meets would be named by the link that closes the ring as well. -/
theorem Sound.not_leadsTo_self {c : Context} {roots : List String} (h : Sound c roots) {r : Reference}
    {place : Place} {id : String} (hw : Walked c roots r place id) : ¬ LeadsTo c roots id id := by
  have hlast {n : String} (hn : LeadsTo c roots n n) : ∃ x s place',
      Walked c roots (.link x s) place' n ∧ Relation.ReflTransGen (LinksTo c roots) n x ∧
        LinksTo c roots x n := by
    obtain ⟨x, hpath, r', place', b, s, hw', hb, hs, hl⟩ := Relation.TransGen.tail'_iff.mp hn
    exact ⟨x, s, placeAt s, .link hw' hb hs hl, hpath, r', place', b, s, hw', hb, hs, hl⟩
  induction hw with
  | root hi =>
    intro hcycle
    obtain ⟨x, s, place', hw', -, -⟩ := hlast hcycle
    cases h.unshared _ _ _ _ _ (.root hi) hw'
  | @link r place id n b s hw hb hs hn ih =>
    intro hcycle
    obtain ⟨x, s', place', hw', hpath, -⟩ := hlast hcycle
    cases h.unshared _ _ _ _ _ (.link hw hb hs hn) hw'
    exact ih (Relation.TransGen.head' ⟨r, place, b, s, hw, hb, hs, hn⟩ hpath)

/-- The links that are read: the slots of enabled blocks, and what comes behind a statement or
behind any block that is met in a chain, be it skipped or not. -/
inductive Context.Reads (c : Context) (roots : List String) : String → String → Prop where
  | slot {id n : String} {b : Block} {s : Socket} (hb : c.workspace.get? id = some b)
    (hs : s ∈ c.reads b) (hn : b.linked? s = some n) : Reads c roots id n
  | behind {id n : String} {b : Block} {shape : Shape} (hb : c.workspace.get? id = some b)
    (hen : b.enabled = true) (hs : c.catalogue.shape? b.typeId = some shape)
    (ho : shape.output = .statement) (hn : b.linked? .next = some n) : Reads c roots id n
  | met {id n : String} {b : Block} {r : Reference} {place : Place} (hw : Walked c roots r place id)
    (hp : place ≠ .operand) (hb : c.workspace.get? id = some b) (hn : b.linked? .next = some n) :
    Reads c roots id n

section Rings

variable {c : Context} {roots : List String} {r : Reference} {place : Place} {id n : String}

end Rings

end BlockSketch.Program
