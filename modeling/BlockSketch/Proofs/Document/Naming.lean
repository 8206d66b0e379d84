import BlockSketch.Catalogue.Arduino
import BlockSketch.Proofs.Document.Acceptance

namespace BlockSketch.Document

/-- The blocks that a document has once it is a forest: a shadow behind a real block is not among
them. -/
def documentEntries (nodes : List Node) : List Entry := (nodes.map Node.tree).flatMap Tree.entries

def writtenIds (entries : List Entry) : List String := entries.filterMap Entry.id

/-- The number of blocks without an id. -/
def unnamed (entries : List Entry) : Nat := entries.countP fun e => e.id.isNone

/-- The first `k` ids that are generated after `n` others. -/
def idsAfter (n k : Nat) : List String := (List.range' (n + 1) k).map generatedId

/-- The ids that the blocks without one are given. -/
def givenIds (entries : List Entry) : List String := idsAfter 0 (unnamed entries)

def Problem.isDuplicate (p : Problem) : Bool :=
  match p.fault with
  | .duplicateId => true
  | _ => false

theorem generatedId_inj {i j : Nat} (h : generatedId i = generatedId j) : i = j := indexedSlot_inj h

theorem mem_idsAfter_iff {n k : Nat} {i : String} :
    i ∈ idsAfter n k ↔ ∃ m, n < m ∧ m ≤ n + k ∧ generatedId m = i := by
  simp only [idsAfter, List.mem_map, List.mem_range'_1]
  constructor
  · rintro ⟨m, hm, rfl⟩
    exact ⟨m, by omega, by omega, rfl⟩
  · rintro ⟨m, hlow, hhigh, rfl⟩
    exact ⟨m, by omega, rfl⟩

theorem nodup_idsAfter (n k : Nat) : (idsAfter n k).Nodup :=
  List.Nodup.map (fun _ _ => generatedId_inj) (List.nodup_range' 1)

theorem idsAfter_succ (n k : Nat) : idsAfter n (k + 1) = generatedId (n + 1) :: idsAfter (n + 1) k := by
  simp [idsAfter, List.range'_succ]

section Counting

variable {e : Entry} {i : String}

theorem writtenIds_append (xs ys : List Entry) :
    writtenIds (xs ++ ys) = writtenIds xs ++ writtenIds ys := List.filterMap_append

theorem unnamed_append (xs ys : List Entry) : unnamed (xs ++ ys) = unnamed xs + unnamed ys :=
  List.countP_append

theorem writtenIds_cons_some (h : e.id = some i) (r : List Entry) :
    writtenIds (e :: r) = i :: writtenIds r := List.filterMap_cons_some h

theorem writtenIds_cons_none (h : e.id = none) (r : List Entry) :
    writtenIds (e :: r) = writtenIds r := List.filterMap_cons_none h

theorem unnamed_cons_some (h : e.id = some i) (r : List Entry) : unnamed (e :: r) = unnamed r := by
  simp [unnamed, h]

theorem unnamed_cons_none (h : e.id = none) (r : List Entry) : unnamed (e :: r) = unnamed r + 1 := by
  simp [unnamed, h]

theorem Entry.label_of_some (h : e.id = some i) (n : Nat) : e.label n = (i, n) := by
  simp [Entry.label, h]

theorem Entry.label_of_none (h : e.id = none) (n : Nat) :
    e.label n = (generatedId (n + 1), n + 1) := by
  simp [Entry.label, h]

end Counting

def nextEntries : Option Tree → List Entry
  | some t => t.entries
  | none => []

theorem Tree.entries_node (entry : Entry) (inputs : List (String × Tree)) (next : Option Tree) :
    (Tree.node entry inputs next).entries = entry :: (inputsEntries inputs ++ nextEntries next) := by
  cases next <;> rfl

section Ledger

/-- What loading has done with the ids of the blocks `all`, of which `rest` are still to come. -/
structure Ledger (all rest : List Entry) (p : Progress) : Prop where
  taken : ∀ i ∈ p.taken, i ∈ writtenIds all ∧ i ∉ writtenIds rest ∨ i ∈ idsAfter 0 p.generated
  distinct : (writtenIds rest).Nodup
  written : ∀ i ∈ writtenIds rest, i ∈ writtenIds all
  enough : p.generated + unnamed rest ≤ unnamed all
  reported : ∀ q ∈ p.problems, q.isDuplicate = true → q.block ∈ writtenIds all ∧ q.block ∈ givenIds all

variable {c : Catalogue} {all rest skipped : List Entry} {p p' : Progress} {entry : Entry}
  {id : String} {n : Nat}

theorem ledger_start (h : (writtenIds all).Nodup) : Ledger all all {} :=
  ⟨by simp, h, fun _ hi => hi, by simp, by simp⟩

namespace Ledger

theorem skip (h : Ledger all (skipped ++ rest) p) : Ledger all rest p := by
  have hsplit := writtenIds_append skipped rest
  have hcount := unnamed_append skipped rest
  have hmem : ∀ i ∈ writtenIds rest, i ∈ writtenIds (skipped ++ rest) := by
    intro i hi
    rw [hsplit]
    exact List.mem_append_right _ hi
  refine ⟨fun i hi => ?_, ?_, fun i hi => h.written i (hmem i hi), ?_, h.reported⟩
  · exact (h.taken i hi).imp_left fun hw => ⟨hw.1, fun hr => hw.2 (hmem i hr)⟩
  · have hd := h.distinct
    rw [hsplit] at hd
    exact (List.nodup_append.mp hd).2.1
  · have he := h.enough
    omega

theorem report {problems : List Problem} (h : Ledger all rest p)
    (hnew : ∀ q ∈ problems, q.isDuplicate = true → q.block ∈ writtenIds all ∧ q.block ∈ givenIds all) :
    Ledger all rest { p with problems := p.problems ++ problems } := by
  refine ⟨h.taken, h.distinct, h.written, h.enough, ?_⟩
  simp only [List.forall_mem_append]
  exact ⟨h.reported, hnew⟩

theorem reportOther {problems : List Problem} (h : Ledger all rest p)
    (hother : ∀ q ∈ problems, q.isDuplicate = false) :
    Ledger all rest { p with problems := p.problems ++ problems } :=
  h.report fun q hq hdup => absurd hdup (by simp [hother q hq])

/-- The next block gets its id, and that is now taken. -/
theorem take (h : Ledger all (entry :: rest) p) (hlabel : entry.label p.generated = (id, n)) :
    Ledger all rest { p with generated := n, taken := id :: p.taken } := by
  have henough := h.enough
  cases he : entry.id with
  | some i =>
    rw [Entry.label_of_some he] at hlabel
    cases hlabel
    have htaken := h.taken
    have hdistinct := h.distinct
    have hwritten := h.written
    rw [writtenIds_cons_some he] at htaken hdistinct hwritten
    rw [unnamed_cons_some he] at henough
    rw [List.forall_mem_cons] at hwritten
    rw [List.nodup_cons] at hdistinct
    refine ⟨?_, hdistinct.2, hwritten.2, henough, h.reported⟩
    refine List.forall_mem_cons.mpr ⟨.inl ⟨hwritten.1, hdistinct.1⟩, fun j hj => ?_⟩
    exact (htaken j hj).imp_left fun hw => ⟨hw.1, fun hr => hw.2 (List.mem_cons_of_mem _ hr)⟩
  | none =>
    rw [Entry.label_of_none he] at hlabel
    cases hlabel
    rw [unnamed_cons_none he] at henough
    have hall := writtenIds_cons_none he rest
    refine ⟨?_, hall ▸ h.distinct, hall ▸ h.written, by simp only; omega, h.reported⟩
    simp only [List.forall_mem_cons, mem_idsAfter_iff]
    refine ⟨.inr ⟨p.generated + 1, by omega, by omega, rfl⟩, fun j hj => ?_⟩
    have htaken := h.taken j hj
    rw [hall, mem_idsAfter_iff] at htaken
    rcases htaken with hold | ⟨m, hlow, hhigh, hm⟩
    · exact .inl hold
    · exact .inr ⟨m, hlow, by omega, hm⟩

/-- The next block gets its id, but is refused. -/
theorem pass (h : Ledger all (entry :: rest) p) (hlabel : entry.label p.generated = (id, n)) :
    Ledger all rest { p with generated := n } := by
  have ht := h.take hlabel
  exact ⟨fun i hi => ht.taken i (List.mem_cons_of_mem _ hi), ht.distinct, ht.written, ht.enough,
    ht.reported⟩

/-- If the id of the next block is taken already, one of the two was written and the other given. -/
theorem clash (h : Ledger all (entry :: rest) p) (hlabel : entry.label p.generated = (id, n))
    (htaken : id ∈ p.taken) : id ∈ writtenIds all ∧ id ∈ givenIds all := by
  have henough := h.enough
  simp only [givenIds, mem_idsAfter_iff]
  cases he : entry.id with
  | some i =>
    rw [Entry.label_of_some he] at hlabel
    cases hlabel
    have hown : id ∈ writtenIds (entry :: rest) := by
      rw [writtenIds_cons_some he]
      exact List.mem_cons_self
    rcases h.taken id htaken with ⟨-, hgone⟩ | hgiven
    · exact absurd hown hgone
    · obtain ⟨m, hlow, hhigh, hm⟩ := mem_idsAfter_iff.mp hgiven
      exact ⟨h.written id hown, m, hlow, by omega, hm⟩
  | none =>
    rw [Entry.label_of_none he] at hlabel
    cases hlabel
    rw [unnamed_cons_none he] at henough
    rcases h.taken _ htaken with ⟨hwritten, -⟩ | hgiven
    · exact ⟨hwritten, p.generated + 1, by omega, by omega, rfl⟩
    · -- The counter only grows, so no id is given twice.
      obtain ⟨m, -, hhigh, hm⟩ := mem_idsAfter_iff.mp hgiven
      have := generatedId_inj hm
      omega

end Ledger

theorem isDuplicate_fieldProblems (id typeId : String) (fields : List (String × Json.Value)) :
    ∀ q ∈ fieldProblems id typeId fields, q.isDuplicate = false := by
  intro q hq
  obtain ⟨f, -, rfl⟩ := List.mem_map.mp hq
  rfl

theorem Admitted.ledger {site : Site} {q : Progress} (h : Admitted c site entry p q id)
    (hl : Ledger all (entry :: rest) p) : Ledger all rest q := by
  have hq := (hl.take h.label).reportOther (isDuplicate_fieldProblems id entry.typeId entry.fields)
  obtain ⟨generated, taken, problems⟩ := q
  have ht := h.taken
  have hp := h.problems
  simp only at ht hp hq
  rwa [← ht, ← hp] at hq

mutual

/-- Placing a tree settles its blocks, placed or not. -/
theorem placeTree_ledger : ∀ (tree : Tree) {site : Site} {p p' : Progress} {blocks : List Block}
    {rest : List Entry}, (placeTree c site tree).run p = (blocks, p') →
      Ledger all (tree.entries ++ rest) p → Ledger all rest p'
  | .node entry inputs next, site, p, p', blocks, rest, h, hl => by
    rw [Tree.entries_node, List.cons_append, List.append_assoc] at hl
    cases placesTree_of_run h with
    | misplaced hlabel _ => exact (hl.pass hlabel).skip.skip.reportOther (by simp [Problem.isDuplicate])
    | duplicate hlabel htaken =>
      have hfields := isDuplicate_fieldProblems
      refine ((hl.pass hlabel).skip.skip.reportOther (hfields _ _ _)).report ?_
      simpa [Problem.isDuplicate] using hl.clash hlabel htaken
    | last hadm hinputs => exact placeInputs_ledger inputs hinputs (hadm.ledger hl)
    | followed hadm hinputs _ hfollow =>
      exact placeTree_ledger _ hfollow (placeInputs_ledger inputs hinputs (hadm.ledger hl))
    | unfollowed hadm hinputs _ =>
      have hq := placeInputs_ledger inputs hinputs (hadm.ledger hl)
      exact hq.skip.reportOther (by simp [Problem.isDuplicate])

theorem placeInputs_ledger : ∀ (inputs : List (String × Tree)) {shape : Option Shape} {b : Block}
    {p p' : Progress} {result : Block × List Block} {rest : List Entry},
    (placeInputs c shape b inputs).run p = (result, p') →
      Ledger all (inputsEntries inputs ++ rest) p → Ledger all rest p'
  | [], shape, b, p, p', _, rest, h, hl => by
    cases h
    exact hl
  | (slot, tree) :: r, shape, b, p, p', _, rest, h, hl => by
    rw [inputsEntries, List.append_assoc] at hl
    cases placesInputs_of_run h with
    | unknown _ hrest =>
      exact placeInputs_ledger r hrest (hl.skip.reportOther (by simp [Problem.isDuplicate]))
    | placed _ hplaced hrest =>
      exact placeInputs_ledger r hrest (placeTree_ledger tree hplaced hl)

end

theorem placeForest_ledger {forest : List Tree} {blocks : List Block}
    (h : (placeForest c forest).run p = (blocks, p'))
    (hl : Ledger all (forest.flatMap Tree.entries) p) : Ledger all [] p' := by
  induction forest generalizing p blocks with
  | nil =>
    cases h
    exact hl
  | cons tree forest ih =>
    rw [List.flatMap_cons] at hl
    obtain ⟨placed, p₁, hplaced, h⟩ := exists_run_bind h
    obtain ⟨others, p₂, hothers, h⟩ := exists_run_bind h
    cases h
    exact ih hothers (placeTree_ledger tree hplaced hl)

end Ledger

section Labelled

/-- The ids that entries get in order, after `n` were generated. -/
def labelled (n : Nat) : List Entry → List String
  | [] => []
  | e :: r => (e.label n).1 :: labelled (e.label n).2 r

theorem labelled_append (n : Nat) (xs ys : List Entry) :
    labelled n (xs ++ ys) = labelled n xs ++ labelled (n + unnamed xs) ys := by
  induction xs generalizing n with
  | nil => rfl
  | cons e r ih =>
    cases he : e.id with
    | some i => simp [labelled, Entry.label_of_some he, unnamed_cons_some he, ih]
    | none =>
      simp only [List.cons_append, labelled, Entry.label_of_none he, unnamed_cons_none he, ih]
      rw [Nat.add_right_comm, Nat.add_assoc]

theorem Entry.label_snd (e : Entry) (n : Nat) : (e.label n).2 = n + unnamed [e] := by
  cases he : e.id with
  | some i => simp [Entry.label_of_some he, unnamed, he]
  | none => simp [Entry.label_of_none he, unnamed, he]

/-- The written and the given ids are all there are. -/
theorem labelled_perm (n : Nat) (entries : List Entry) :
    (labelled n entries).Perm (writtenIds entries ++ idsAfter n (unnamed entries)) := by
  induction entries generalizing n with
  | nil => exact .nil
  | cons e r ih =>
    cases he : e.id with
    | some i =>
      rw [labelled, Entry.label_of_some he, writtenIds_cons_some he, unnamed_cons_some he]
      exact (ih n).cons i
    | none =>
      rw [labelled, Entry.label_of_none he, writtenIds_cons_none he, unnamed_cons_none he,
        idsAfter_succ]
      exact ((ih (n + 1)).cons _).trans List.perm_middle.symm

mutual

/-- The ids of a tree are those of its entries in order. -/
theorem Tree.label_ids (n : Nat) : ∀ t : Tree,
    (t.label n).1.entries.map Entry.id = (labelled n t.entries).map some ∧
      (t.label n).2 = n + unnamed t.entries
  | .node entry inputs next => by
    obtain ⟨hids, hcount⟩ := labelInputs_ids (n + unnamed [entry]) inputs
    have hown : unnamed (entry :: inputsEntries inputs) =
        unnamed [entry] + unnamed (inputsEntries inputs) := unnamed_append [entry] _
    rw [Tree.entries_node]
    cases next with
    | none =>
      simp only [Tree.label, Tree.entries_node, nextEntries, List.append_nil, List.map_cons, labelled,
        entry.label_snd, hids, hcount, hown, Nat.add_assoc, and_self]
    | some t =>
      obtain ⟨hids', hcount'⟩ := t.label_ids (n + unnamed [entry] + unnamed (inputsEntries inputs))
      simp only [Tree.label, Tree.entries_node, nextEntries, List.map_cons, List.map_append, labelled,
        labelled_append, ← List.cons_append, unnamed_append, entry.label_snd, hids, hcount, hids',
        hcount', hown]
      simp only [Nat.add_assoc, and_self]

theorem labelInputs_ids (n : Nat) : ∀ inputs : List (String × Tree),
    (inputsEntries (labelInputs n inputs).1).map Entry.id =
        (labelled n (inputsEntries inputs)).map some ∧
      (labelInputs n inputs).2 = n + unnamed (inputsEntries inputs)
  | [] => ⟨rfl, rfl⟩
  | (slot, t) :: r => by
    obtain ⟨hids, hcount⟩ := t.label_ids n
    obtain ⟨hids', hcount'⟩ := labelInputs_ids (t.label n).2 r
    rw [hcount] at hids' hcount'
    simp only [labelInputs, inputsEntries, List.map_append, labelled_append, unnamed_append, hids]
    rw [hcount, hids', hcount', Nat.add_assoc]
    exact ⟨rfl, rfl⟩

end

theorem labelForest_ids (n : Nat) (forest : List Tree) :
    ((labelForest n forest).1.flatMap Tree.entries).map Entry.id =
      (labelled n (forest.flatMap Tree.entries)).map some := by
  induction forest generalizing n with
  | nil => rfl
  | cons t r ih =>
    obtain ⟨hids, hcount⟩ := t.label_ids n
    simp only [labelForest, List.flatMap_cons, List.map_append, labelled_append, hids, hcount, ih]

/-- All ids are distinct exactly if the written ones are, and none of them is given too. -/
theorem nodup_numbered_iff (forest : List Tree) :
    (((numbered forest).flatMap Tree.entries).map Entry.id).Nodup ↔
      (writtenIds (forest.flatMap Tree.entries)).Nodup ∧
        ∀ i ∈ writtenIds (forest.flatMap Tree.entries), i ∉ givenIds (forest.flatMap Tree.entries) := by
  have hinj : Function.Injective (some : String → Option String) := fun _ _ => Option.some.inj
  rw [numbered, labelForest_ids, List.nodup_map_iff hinj, (labelled_perm _ _).nodup_iff,
    List.nodup_append]
  simp only [nodup_idsAfter, true_and, givenIds]
  refine and_congr_right fun _ => ⟨fun h i hi hg => h i hi i hg rfl, ?_⟩
  rintro h i hi _ hg rfl
  exact h i hi hg

end Labelled

def duplicates (problems : List Problem) : List String :=
  (problems.filter Problem.isDuplicate).map Problem.block

/-- Of distinct written ids only those that are given too are reported. -/
theorem clash_of_loadNodes {c : Catalogue} {nodes : List Node} {problems : List Problem}
    (hdistinct : (writtenIds (documentEntries nodes)).Nodup)
    (h : loadNodes c nodes = .error problems) :
    ∀ i ∈ duplicates problems, i ∈ writtenIds (documentEntries nodes) ∧
      i ∈ givenIds (documentEntries nodes) := by
  rcases hrun : (placeForest c (nodes.map Node.tree)).run {} with ⟨blocks, p⟩
  simp only [loadNodes, loadForest, hrun] at h
  split_ifs at h
  cases h
  have hledger := placeForest_ledger hrun (ledger_start hdistinct)
  intro i hi
  obtain ⟨q, hq, rfl⟩ := List.mem_map.mp hi
  obtain ⟨hmem, hdup⟩ := List.mem_filter.mp hq
  exact hledger.reported q hmem hdup

end BlockSketch.Document

namespace BlockSketch

def LoadError.duplicates : LoadError → List String
  | .unreadable _ => []
  | .problems list => Document.duplicates list

open Document

/-- The ids that are reported as duplicates, none if the text is loaded. -/
def reportedIds (c : Catalogue) (source : String) : Except LoadError (List String) :=
  ((load c source).map fun _ => []).tryCatch fun e => .ok e.duplicates

def writtenIn? (source : String) : Option (List String) :=
  (read source).toOption.map fun nodes => writtenIds (documentEntries nodes)

theorem exists_reported {c : Catalogue} {source i : String} {written others : List String}
    (hids : writtenIn? source = some written)
    (hreported : (reportedIds c source).toOption = some (i :: others)) :
    ∃ nodes e, read source = .ok nodes ∧ load c source = .error e ∧
      writtenIds (documentEntries nodes) = written ∧ e.duplicates = i :: others := by
  cases hread : read source with
  | error failure => simp [writtenIn?, hread, Except.toOption] at hids
  | ok nodes =>
    cases hload : load c source with
    | ok w => simp [reportedIds, hload, Except.map, Except.tryCatch, Except.toOption] at hreported
    | error e =>
      simp only [writtenIn?, hread, Except.toOption, Option.map_some, Option.some.injEq] at hids
      simp only [reportedIds, hload, Except.map, Except.tryCatch, Except.toOption,
        Option.some.injEq] at hreported
      exact ⟨nodes, e, rfl, rfl, hids, hreported⟩

/-- A block with an id, and then one that is given the same id. -/
def writtenFirst : String :=
  "\x7b\"blocks\":\x7b\"blocks\":[\x7b\"type\":\"t\",\"id\":\"b1\"\x7d,\x7b\"type\":\"t\"\x7d]\x7d\x7d"

/-- A block that is given an id, and after it one with the same id. -/
def givenFirst : String :=
  "\x7b\"blocks\":\x7b\"blocks\":[\x7b\"type\":\"t\",\"next\":\x7b\"block\":" ++
    "\x7b\"type\":\"t\",\"id\":\"b1\"\x7d\x7d\x7d]\x7d\x7d"

/-- If the ids that a document writes are distinct, then each duplicate that is reported is both
written and given to a block without one. -/
theorem duplicates_are_given (c : Catalogue) (source : String) (nodes : List Node)
    (hread : read source = .ok nodes) (hdistinct : (writtenIds (documentEntries nodes)).Nodup) :
    (∀ e, load c source = .error e → ∀ i ∈ e.duplicates,
      i ∈ writtenIds (documentEntries nodes) ∧ i ∈ givenIds (documentEntries nodes)) ∧
    ((∃ w, load c source = .ok w) ↔
      (∀ i ∈ writtenIds (documentEntries nodes), i ∉ givenIds (documentEntries nodes)) ∧
      (∀ e ∈ documentEntries nodes, e.Supported) ∧
      ∀ x ∈ (nodes.map Node.tree).flatMap (Tree.standing .top), x.1.Suits c x.2) := by
  constructor
  · intro e he
    cases hn : loadNodes c nodes with
    | ok w => simp [load, hread, hn] at he
    | error problems =>
      simp only [load, hread, hn] at he
      cases he
      exact clash_of_loadNodes hdistinct hn
  · have hload : (∃ w, load c source = .ok w) ↔ ∃ w, loadNodes c nodes = .ok w := by
      cases hn : loadNodes c nodes <;> simp [load, hread, hn]
    rw [hload, exists_loadNodes_iff]
    constructor
    · intro h
      exact ⟨((nodup_numbered_iff _).mp h.distinct).2, h.supported, h.suits⟩
    · rintro ⟨hapart, hsupported, hsuits⟩
      exact ⟨(nodup_numbered_iff _).mpr ⟨hdistinct, hapart⟩, hsupported, hsuits⟩

theorem duplicates_are_given_after : ∃ nodes e, read givenFirst = .ok nodes ∧
    (writtenIds (documentEntries nodes)).Nodup ∧ load Arduino.catalogue givenFirst = .error e ∧
    e.duplicates = ["b1"] ∧ "b1" ∈ writtenIds (documentEntries nodes) ∧
    "b1" ∈ givenIds (documentEntries nodes) := by
  have hids : writtenIn? givenFirst = some ["b1"] := by decide +kernel
  have hreported : (reportedIds Arduino.catalogue givenFirst).toOption = some ["b1"] := by
    decide +kernel
  obtain ⟨nodes, e, hread, hload, hwritten, hdup⟩ := exists_reported hids hreported
  have hdistinct : (writtenIds (documentEntries nodes)).Nodup := by simp [hwritten]
  have hclash := (duplicates_are_given Arduino.catalogue givenFirst nodes hread hdistinct).1 e hload
  exact ⟨nodes, e, hread, hdistinct, hload, hdup, hclash "b1" (by simp [hdup])⟩

/-- Distinct written ids alone do not keep a document from being refused for a duplicate: a given id
may be written on another block. -/
theorem given_id_is_written : ∃ nodes e, read writtenFirst = .ok nodes ∧
    (writtenIds (documentEntries nodes)).Nodup ∧ load Arduino.catalogue writtenFirst = .error e ∧
    e.duplicates = ["b1"] := by
  have hids : writtenIn? writtenFirst = some ["b1"] := by decide +kernel
  have hreported : (reportedIds Arduino.catalogue writtenFirst).toOption = some ["b1"] := by
    decide +kernel
  obtain ⟨nodes, e, hread, hload, hwritten, hdup⟩ := exists_reported hids hreported
  exact ⟨nodes, e, hread, by simp [hwritten], hload, hdup⟩

end BlockSketch
