import BlockSketch.Catalogue.Arduino
import BlockSketch.Catalogue.Toolbox
import Mathlib.Data.List.Infix
import Mathlib.Data.List.Nodup

namespace BlockSketch

/-- The last value that was written under a name. -/
def latest {α : Type} (name : String) (writes : List (String × α)) : Option α := writes.reverse.lookup name

/-- One name was written for the first time before another. -/
def FirstBefore {α : Type} (writes : List (String × α)) (a b : String) : Prop :=
  (writes.map Prod.fst).idxOf a < (writes.map Prod.fst).idxOf b

namespace Table

variable {α : Type}

/-- The table after further writes, earliest first. -/
def writeAll (t : Table α) (writes : List (String × α)) : Table α :=
  writes.foldl (fun t e => t.insert e.1 e.2) t

section Writes

variable {t : Table α} {writes : List (String × α)}

theorem ofList_append (l writes : List (String × α)) :
    ofList (l ++ writes) = (ofList l).writeAll writes :=
  List.foldl_append

theorem find_eq_lookup (k : String) (l : List (String × α)) : find k l = l.lookup k := by
  induction l with
  | nil => rfl
  | cons e r ih =>
    obtain ⟨k', v⟩ := e
    rw [find, List.lookup_cons, ih]
    by_cases h : k' = k
    · simp [h]
    · have hk : (k == k') = false := by simpa using Ne.symm h
      simp [h, hk]

theorem get?_writeAll (t : Table α) (writes : List (String × α)) (k : String) :
    (t.writeAll writes).get? k = (latest k writes).or (t.get? k) := by
  induction writes generalizing t with
  | nil => rfl
  | cons e r ih =>
    have hstep : t.writeAll (e :: r) = (t.insert e.1 e.2).writeAll r := rfl
    have hlast : latest k (e :: r) = (latest k r).or (find k [e]) := by
      rw [latest, List.reverse_cons, List.lookup_append, ← find_eq_lookup k [e]]
      rfl
    rw [hstep, ih, hlast, get?_insert, Option.or_assoc]
    by_cases h : k = e.1
    · simp [find, h]
    · simp [find, h, Ne.symm h]

theorem get?_ofList (writes : List (String × α)) (k : String) :
    (ofList writes).get? k = latest k writes := by
  have h := get?_writeAll empty writes k
  rwa [get?_empty, Option.or_none] at h

/-- The names stand in the order in which they were first written. -/
theorem pairwise_keys_ofList (writes : List (String × α)) :
    (ofList writes).keys.Pairwise (FirstBefore writes) := by
  induction writes using List.reverseRecOn with
  | nil => exact .nil
  | append_singleton r e ih =>
    have hold {a : String} (ha : a ∈ (ofList r).keys) :
        ((r ++ [e]).map Prod.fst).idxOf a = (r.map Prod.fst).idxOf a := by
      rw [List.map_append]
      exact List.idxOf_append_of_mem (mem_keys_ofList.mp ha)
    have hkept : (ofList r).keys.Pairwise (FirstBefore (r ++ [e])) := by
      refine ih.imp_of_mem fun ha hb hab => ?_
      rwa [FirstBefore, hold ha, hold hb]
    have hkeys : (ofList (r ++ [e])).keys = if e.1 ∈ (ofList r).keys then (ofList r).keys
        else (ofList r).keys ++ [e.1] := by
      rw [ofList_append]
      exact keys_insert (ofList r) e.1 e.2
    rw [hkeys]
    split_ifs with he
    · exact hkept
    · have hnew : e.1 ∉ r.map Prod.fst := fun hm => he (mem_keys_ofList.mpr hm)
      refine List.pairwise_append.mpr ⟨hkept, by simp, fun a ha b hb => ?_⟩
      rw [List.mem_singleton.mp hb, FirstBefore, hold ha, List.map_append,
        List.idxOf_append_of_notMem hnew]
      have hlt : (r.map Prod.fst).idxOf a < (r.map Prod.fst).length :=
        List.idxOf_lt_length_of_mem (mem_keys_ofList.mp ha)
      omega

theorem insert_of_get? {k : String} {v : α} (h : t.get? k = some v) : t.insert k v = t :=
  Table.ext (put_of_find h)

theorem writeAll_of_get? (h : ∀ e ∈ writes, t.get? e.1 = some e.2) : t.writeAll writes = t := by
  induction writes with
  | nil => rfl
  | cons e r ih =>
    obtain ⟨he, hr⟩ := List.forall_mem_cons.mp h
    have hstep : t.writeAll (e :: r) = (t.insert e.1 e.2).writeAll r := rfl
    rw [hstep, insert_of_get? he]
    exact ih hr

/-- Writes under different names change nothing the second time. -/
theorem writeAll_writeAll (t : Table α) (hn : (writes.map Prod.fst).Nodup) :
    (t.writeAll writes).writeAll writes = t.writeAll writes := by
  apply writeAll_of_get?
  intro e he
  have hlast : latest e.1 writes = some e.2 := by
    rw [latest, ← find_eq_lookup]
    refine find_of_mem ?_ (List.mem_reverse.mpr he)
    rwa [List.map_reverse, List.nodup_reverse]
  rw [get?_writeAll, hlast, Option.some_or]

end Writes

end Table

namespace Catalogue

inductive Definition where
  | type (typeId : String) (shape : Shape)
  | category (name : String) (colour : Nat)
  | builtin

namespace Definition

def types : Definition → List (String × Shape)
  | .type typeId shape => [(typeId, shape)]
  | .category _ _ => []
  | .builtin => Arduino.types

def categories : Definition → List (String × Nat)
  | .type _ _ => []
  | .category name colour => [(name, colour)]
  | .builtin => Arduino.categories

end Definition

def define (c : Catalogue) : Definition → Catalogue
  | .type typeId shape => c.defineType typeId shape
  | .category name colour => c.defineCategory name colour
  | .builtin => Arduino.extend c

/-- The catalogue after some definitions, earliest first. -/
def afterAll (definitions : List Definition) : Catalogue := definitions.foldl define .empty

section Definitions

theorem defineTypes_eq (c : Catalogue) (types : List (String × Shape)) :
    c.defineTypes types = { c with types := c.types.writeAll types } := by
  induction types generalizing c with
  | nil => rfl
  | cons e r ih => exact ih (c.defineType e.1 e.2)

theorem defineCategories_eq (c : Catalogue) (categories : List (String × Nat)) :
    c.defineCategories categories = { c with categories := c.categories.writeAll categories } := by
  induction categories generalizing c with
  | nil => rfl
  | cons e r ih => exact ih (c.defineCategory e.1 e.2)

theorem extend_eq (c : Catalogue) :
    Arduino.extend c = ⟨c.types.writeAll Arduino.types, c.categories.writeAll Arduino.categories⟩ := by
  rw [Arduino.extend, defineCategories_eq, defineTypes_eq]

/-- A definition writes its types and its categories into the two tables. -/
theorem define_eq (c : Catalogue) (d : Definition) :
    c.define d = ⟨c.types.writeAll d.types, c.categories.writeAll d.categories⟩ := by
  cases d with
  | type typeId shape => rfl
  | category name colour => rfl
  | builtin => exact extend_eq c

theorem afterAll_eq (definitions : List Definition) :
    afterAll definitions = ⟨.ofList (definitions.flatMap Definition.types),
      .ofList (definitions.flatMap Definition.categories)⟩ := by
  induction definitions using List.reverseRecOn with
  | nil => rfl
  | append_singleton r d ih =>
    have hstep : afterAll (r ++ [d]) = (afterAll r).define d := List.foldl_append
    rw [hstep, ih, define_eq, List.flatMap_append, List.flatMap_append, List.flatMap_singleton,
      List.flatMap_singleton, Table.ofList_append, Table.ofList_append]

/-- Adding the built-in types and categories again changes nothing. -/
theorem extend_extend (c : Catalogue) : Arduino.extend (Arduino.extend c) = Arduino.extend c := by
  have htypes : (Arduino.types.map Prod.fst).Nodup := by decide
  have hcategories : (Arduino.categories.map Prod.fst).Nodup := by decide
  simp only [extend_eq, Table.writeAll_writeAll _ htypes, Table.writeAll_writeAll _ hcategories]

end Definitions

section Toolbox

variable {c : Catalogue}

theorem mem_typesIn_iff {category typeId : String} : typeId ∈ c.typesIn category ↔
    ∃ shape, c.shape? typeId = some shape ∧ shape.presentation.category = some category := by
  simp only [typesIn, List.mem_map, List.mem_filter, beq_iff_eq, shape?, Table.get?_eq_some_iff]
  constructor
  · rintro ⟨⟨typeId, shape⟩, ⟨hm, hc⟩, rfl⟩
    exact ⟨shape, hm, hc⟩
  · rintro ⟨shape, hm, hc⟩
    exact ⟨(typeId, shape), ⟨hm, hc⟩, rfl⟩

theorem typesIn_sublist (c : Catalogue) (category : String) :
    (c.typesIn category).Sublist c.types.keys :=
  List.filter_sublist.map Prod.fst

theorem mem_toolbox_iff {t : ToolboxCategory} : t ∈ c.toolbox ↔
    c.categories.get? t.name = some t.colour ∧ t.types = c.typesIn t.name ∧ t.types ≠ [] := by
  simp only [toolbox, List.mem_filter, List.mem_map, Table.get?_eq_some_iff]
  constructor
  · rintro ⟨⟨e, he, rfl⟩, hne⟩
    exact ⟨he, rfl, by simpa using hne⟩
  · rintro ⟨he, ht, hne⟩
    refine ⟨⟨(t.name, t.colour), he, ?_⟩, by simpa using hne⟩
    rw [← ht]

theorem map_name_toolbox_sublist (c : Catalogue) :
    (c.toolbox.map ToolboxCategory.name).Sublist c.categories.keys := by
  have hsub := (List.filter_sublist (p := fun t : ToolboxCategory => !t.types.isEmpty)
    (l := c.categories.entries.map fun e => ⟨e.1, e.2, c.typesIn e.1⟩)).map ToolboxCategory.name
  rwa [List.map_map] at hsub

/-- A category is in the toolbox with all its types as soon as it has one. -/
theorem exists_mem_toolbox_iff {category typeId : String} :
    (∃ t ∈ c.toolbox, t.name = category ∧ typeId ∈ t.types) ↔
      category ∈ c.categories.keys ∧ typeId ∈ c.typesIn category := by
  constructor
  · rintro ⟨t, ht, rfl, hm⟩
    obtain ⟨hcolour, htypes, -⟩ := mem_toolbox_iff.mp ht
    exact ⟨Table.mem_keys_of_get? hcolour, htypes ▸ hm⟩
  · rintro ⟨hkey, hm⟩
    obtain ⟨⟨name, colour⟩, he, rfl⟩ := List.mem_map.mp hkey
    refine ⟨⟨name, colour, c.typesIn name⟩, mem_toolbox_iff.mpr ⟨?_, rfl, ?_⟩, rfl, hm⟩
    · exact Table.get?_eq_some_iff.mpr he
    · exact List.ne_nil_of_mem hm

/-- No type is listed twice, since it has one shape and this names one category. -/
theorem nodup_toolbox_types (c : Catalogue) : (c.toolbox.flatMap ToolboxCategory.types).Nodup := by
  rw [List.nodup_flatMap]
  constructor
  · intro t ht
    rw [(mem_toolbox_iff.mp ht).2.1]
    exact c.types.distinct.sublist (c.typesIn_sublist t.name)
  · have hnames : (c.toolbox.map ToolboxCategory.name).Nodup :=
      c.categories.distinct.sublist c.map_name_toolbox_sublist
    refine (List.pairwise_map.mp hnames).imp_of_mem fun ht ht' hne typeId hm hm' => ?_
    rw [(mem_toolbox_iff.mp ht).2.1, mem_typesIn_iff] at hm
    rw [(mem_toolbox_iff.mp ht').2.1, mem_typesIn_iff] at hm'
    obtain ⟨shape, hs, hc⟩ := hm
    obtain ⟨shape', hs', hc'⟩ := hm'
    obtain rfl : shape = shape' := Option.some.inj (hs.symm.trans hs')
    exact hne (Option.some.inj (hc.symm.trans hc'))

end Toolbox

/-- What a toolbox lists after any definitions: the types whose last shape names the category, in
the order of their first definitions. What is built in can be added twice. -/
theorem toolbox_after_definitions (definitions : List Definition) :
    (∀ category typeId,
      (∃ t ∈ (afterAll definitions).toolbox, t.name = category ∧ typeId ∈ t.types) ↔
        category ∈ (definitions.flatMap Definition.categories).map Prod.fst ∧
          ∃ shape, latest typeId (definitions.flatMap Definition.types) = some shape ∧
            shape.presentation.category = some category) ∧
      ((afterAll definitions).toolbox.flatMap ToolboxCategory.types).Nodup ∧
      ((afterAll definitions).toolbox.map ToolboxCategory.name).Pairwise
        (FirstBefore (definitions.flatMap Definition.categories)) ∧
      (∀ t ∈ (afterAll definitions).toolbox, t.types ≠ [] ∧
        latest t.name (definitions.flatMap Definition.categories) = some t.colour ∧
        t.types.Pairwise (FirstBefore (definitions.flatMap Definition.types))) ∧
      afterAll (definitions ++ [.builtin, .builtin]) = afterAll (definitions ++ [.builtin]) := by
  have hcategories : (afterAll definitions).categories =
      .ofList (definitions.flatMap Definition.categories) := by
    rw [afterAll_eq]
  have htypes : (afterAll definitions).types = .ofList (definitions.flatMap Definition.types) := by
    rw [afterAll_eq]
  refine ⟨fun category typeId => ?_, nodup_toolbox_types _, ?_, fun t ht => ?_, ?_⟩
  · rw [exists_mem_toolbox_iff, mem_typesIn_iff, hcategories, Table.mem_keys_ofList]
    simp only [shape?, htypes, Table.get?_ofList]
  · have horder := Table.pairwise_keys_ofList (definitions.flatMap Definition.categories)
    rw [← hcategories] at horder
    exact horder.sublist (map_name_toolbox_sublist _)
  · obtain ⟨hcolour, hlisted, hne⟩ := mem_toolbox_iff.mp ht
    have horder := Table.pairwise_keys_ofList (definitions.flatMap Definition.types)
    rw [← htypes] at horder
    rw [hcategories, Table.get?_ofList] at hcolour
    refine ⟨hne, hcolour, ?_⟩
    rw [hlisted]
    exact horder.sublist (typesIn_sublist _ t.name)
  · simp only [afterAll, List.foldl_append, List.foldl_cons, List.foldl_nil, define, extend_extend]

end Catalogue

end BlockSketch
