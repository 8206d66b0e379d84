namespace BlockSketch

/-- Entries in order of first writing; no name occurs twice. -/
@[ext] structure Table (α : Type) where
  entries : List (String × α)
  distinct : (entries.map Prod.fst).Nodup
  deriving DecidableEq, Repr

namespace Table

variable {α β : Type}

/-- Writes `v` under `k`: in place where `k` stands already, else at the end. -/
def put (k : String) (v : α) : List (String × α) → List (String × α)
  | [] => [(k, v)]
  | e :: r => if e.1 = k then (k, v) :: r else e :: put k v r

def find (k : String) : List (String × α) → Option α
  | [] => none
  | e :: r => if e.1 = k then some e.2 else find k r

theorem keys_put (k : String) (v : α) (l : List (String × α)) :
    (put k v l).map Prod.fst =
      if k ∈ l.map Prod.fst then l.map Prod.fst else l.map Prod.fst ++ [k] := by
  induction l with
  | nil => simp [put]
  | cons e r ih =>
    by_cases h : e.1 = k
    · simp [put, h]
    · have hk : ¬ k = e.1 := fun hh => h hh.symm
      rw [put, if_neg h, List.map_cons, ih]
      by_cases hr : k ∈ r.map Prod.fst <;> simp [hr, hk]

theorem nodup_put (k : String) (v : α) {l : List (String × α)} (h : (l.map Prod.fst).Nodup) :
    ((put k v l).map Prod.fst).Nodup := by
  rw [keys_put]
  split
  · exact h
  · rename_i hk
    rw [List.nodup_append]
    refine ⟨h, by simp, ?_⟩
    intro a ha b hb
    rw [List.mem_singleton] at hb
    rintro rfl
    exact hk (hb ▸ ha)

def empty : Table α := ⟨[], List.nodup_nil⟩

instance : EmptyCollection (Table α) := ⟨empty⟩

instance : Inhabited (Table α) := ⟨empty⟩

def keys (t : Table α) : List String := t.entries.map Prod.fst

def values (t : Table α) : List α := t.entries.map Prod.snd

def size (t : Table α) : Nat := t.entries.length

def isEmpty (t : Table α) : Bool := t.entries.isEmpty

def get? (t : Table α) (k : String) : Option α := find k t.entries

def contains (t : Table α) (k : String) : Bool := decide (k ∈ t.keys)

def insert (t : Table α) (k : String) (v : α) : Table α :=
  ⟨put k v t.entries, nodup_put k v t.distinct⟩

/-- Keeps the entries that satisfy `p`, in order. -/
def filter (p : String → α → Bool) (t : Table α) : Table α :=
  ⟨t.entries.filter fun e => p e.1 e.2, t.distinct.sublist (List.filter_sublist.map Prod.fst)⟩

def erase (t : Table α) (k : String) : Table α := t.filter fun k' _ => k' ≠ k

/-- Changes every value and no name. -/
def map (f : α → β) (t : Table α) : Table β :=
  ⟨t.entries.map fun e => (e.1, f e.2), by
    simpa [List.map_map, Function.comp_def] using t.distinct⟩

def modify (t : Table α) (k : String) (f : α → α) : Table α :=
  ⟨t.entries.map fun e => if e.1 = k then (e.1, f e.2) else e, by
    have h : (t.entries.map fun e => if e.1 = k then (e.1, f e.2) else e).map Prod.fst =
        t.entries.map Prod.fst := by
      rw [List.map_map]
      apply List.map_congr_left
      intro e _
      by_cases he : e.1 = k <;> simp [he]
    rw [h]
    exact t.distinct⟩

def ofList (l : List (String × α)) : Table α := l.foldl (fun t e => t.insert e.1 e.2) empty

@[simp] theorem keys_empty : (empty : Table α).keys = [] := rfl

@[simp] theorem get?_empty (k : String) : (empty : Table α).get? k = none := rfl

theorem contains_iff (t : Table α) (k : String) : t.contains k = true ↔ k ∈ t.keys := by
  simp [contains]

theorem find_eq_none_iff (k : String) (l : List (String × α)) :
    find k l = none ↔ k ∉ l.map Prod.fst := by
  induction l with
  | nil => simp [find]
  | cons e r ih =>
    by_cases h : e.1 = k
    · simp [find, h]
    · have hk : ¬ k = e.1 := fun hh => h hh.symm
      rw [find, if_neg h, ih, List.map_cons, List.mem_cons, not_or, and_iff_right hk]

theorem get?_eq_none_iff (t : Table α) (k : String) : t.get? k = none ↔ k ∉ t.keys :=
  find_eq_none_iff k t.entries

theorem mem_of_find {k : String} {v : α} {l : List (String × α)} (h : find k l = some v) :
    (k, v) ∈ l := by
  induction l with
  | nil => simp [find] at h
  | cons e r ih =>
    by_cases he : e.1 = k
    · simp only [find, he, if_true, Option.some.injEq] at h
      simp [← he, ← h]
    · simp only [find, he, if_false] at h
      exact List.mem_cons_of_mem e (ih h)

theorem mem_of_get? {t : Table α} {k : String} {v : α} (h : t.get? k = some v) :
    (k, v) ∈ t.entries :=
  mem_of_find h

theorem mem_keys_of_get? {t : Table α} {k : String} {v : α} (h : t.get? k = some v) : k ∈ t.keys :=
  List.mem_map.mpr ⟨(k, v), mem_of_get? h, rfl⟩

theorem find_of_mem {k : String} {v : α} {l : List (String × α)} (hn : (l.map Prod.fst).Nodup)
    (h : (k, v) ∈ l) : find k l = some v := by
  induction l with
  | nil => simp at h
  | cons e r ih =>
    rw [List.map_cons, List.nodup_cons] at hn
    rcases List.mem_cons.mp h with rfl | h
    · simp [find]
    · have hk : k ∈ r.map Prod.fst := List.mem_map.mpr ⟨(k, v), h, rfl⟩
      have he : e.1 ≠ k := fun he => hn.1 (he ▸ hk)
      simp [find, he, ih hn.2 h]

theorem get?_eq_some_iff {t : Table α} {k : String} {v : α} :
    t.get? k = some v ↔ (k, v) ∈ t.entries :=
  ⟨mem_of_get?, find_of_mem t.distinct⟩

theorem get?_of_perm {t t' : Table α} (h : t.entries.Perm t'.entries) (k : String) :
    t.get? k = t'.get? k := by
  refine Option.ext fun v => ?_
  rw [get?_eq_some_iff, get?_eq_some_iff, h.mem_iff]

theorem mem_values_iff {t : Table α} {v : α} : v ∈ t.values ↔ ∃ k, t.get? k = some v := by
  simp only [values, List.mem_map, get?_eq_some_iff]
  constructor
  · rintro ⟨⟨k, v'⟩, h, rfl⟩
    exact ⟨k, h⟩
  · rintro ⟨k, h⟩
    exact ⟨(k, v), h, rfl⟩

theorem put_of_not_mem {k : String} (v : α) {l : List (String × α)} (h : k ∉ l.map Prod.fst) :
    put k v l = l ++ [(k, v)] := by
  induction l with
  | nil => rfl
  | cons e r ih =>
    simp only [List.map_cons, List.mem_cons, not_or] at h
    have he : ¬ e.1 = k := fun he => h.1 he.symm
    simp [put, he, ih h.2]

theorem entries_insert_of_none {t : Table α} {k : String} (v : α) (h : t.get? k = none) :
    (t.insert k v).entries = t.entries ++ [(k, v)] :=
  put_of_not_mem v ((get?_eq_none_iff t k).mp h)

theorem values_insert_of_none {t : Table α} {k : String} (v : α) (h : t.get? k = none) :
    (t.insert k v).values = t.values ++ [v] := by
  simp [values, entries_insert_of_none v h]

theorem mem_of_mem_put {k : String} {v : α} {e : String × α} {l : List (String × α)}
    (h : e ∈ put k v l) : e = (k, v) ∨ e ∈ l := by
  induction l with
  | nil => exact .inl (List.mem_singleton.mp h)
  | cons e' r ih =>
    unfold put at h
    split at h
    · rcases List.mem_cons.mp h with h | h
      · exact .inl h
      · exact .inr (List.mem_cons_of_mem e' h)
    · rcases List.mem_cons.mp h with h | h
      · exact .inr (h ▸ List.mem_cons_self)
      · exact (ih h).imp_right (List.mem_cons_of_mem e')

/-- A table holds what was written into it. -/
theorem mem_of_mem_ofList {e : String × α} {l : List (String × α)} (h : e ∈ (ofList l).entries) :
    e ∈ l := by
  have hstep : ∀ (r : List (String × α)) (t : Table α),
      e ∈ (r.foldl (fun t e => t.insert e.1 e.2) t).entries → e ∈ t.entries ∨ e ∈ r := by
    intro r
    induction r with
    | nil => exact fun t h => .inl h
    | cons e' r ih =>
      intro t h
      rcases ih _ h with h | h
      · rcases mem_of_mem_put h with h | h
        · exact .inr (h ▸ List.mem_cons_self)
        · exact .inl h
      · exact .inr (List.mem_cons_of_mem e' h)
  rcases hstep l empty h with h | h
  · cases h
  · exact h

/-- Writes under different names are kept in order. -/
theorem entries_ofList {l : List (String × α)} (h : (l.map Prod.fst).Nodup) :
    (ofList l).entries = l := by
  have hstep : ∀ (r : List (String × α)) (t : Table α), ((t.entries ++ r).map Prod.fst).Nodup →
      (r.foldl (fun t e => t.insert e.1 e.2) t).entries = t.entries ++ r := by
    intro r
    induction r with
    | nil => simp
    | cons e r ih =>
      intro t hn
      have hk : e.1 ∉ t.entries.map Prod.fst := by
        simp only [List.map_append, List.map_cons, List.nodup_append] at hn
        exact fun hm => hn.2.2 e.1 hm e.1 List.mem_cons_self rfl
      have hi : (t.insert e.1 e.2).entries = t.entries ++ [e] := put_of_not_mem e.2 hk
      rw [List.foldl_cons, ih _ (by simpa [hi] using hn), hi]
      simp
  exact hstep l empty h

/-- Later writes go into the table of the earlier ones. -/
theorem entries_ofList_append (l m : List (String × α)) :
    (ofList (l ++ m)).entries = m.foldl (fun es e => put e.1 e.2 es) (ofList l).entries := by
  have hstep : ∀ (r : List (String × α)) (t : Table α),
      (r.foldl (fun t e => t.insert e.1 e.2) t).entries =
        r.foldl (fun es e => put e.1 e.2 es) t.entries := by
    intro r
    induction r with
    | nil => exact fun t => rfl
    | cons e r ih => exact fun t => ih (t.insert e.1 e.2)
  rw [ofList, List.foldl_append]
  exact hstep m (ofList l)

theorem put_map (f : α → β) (k : String) (v : α) (l : List (String × α)) :
    put k (f v) (l.map fun e => (e.1, f e.2)) = (put k v l).map fun e => (e.1, f e.2) := by
  induction l with
  | nil => rfl
  | cons e r ih => by_cases h : e.1 = k <;> simp [put, h, ih]

/-- Changing values before they are written or afterwards is the same. -/
theorem entries_ofList_map (f : α → β) (l : List (String × α)) :
    (ofList (l.map fun e => (e.1, f e.2))).entries =
      (ofList l).entries.map fun e => (e.1, f e.2) := by
  have hstep : ∀ (r : List (String × α)) (t : Table α),
      ((r.map fun e => (e.1, f e.2)).foldl (fun t e => t.insert e.1 e.2) (t.map f)).entries =
        ((r.foldl (fun t e => t.insert e.1 e.2) t).map f).entries := by
    intro r
    induction r with
    | nil => exact fun t => rfl
    | cons e r ih =>
      intro t
      have hput : (t.map f).insert e.1 (f e.2) = (t.insert e.1 e.2).map f :=
        Table.ext (put_map f e.1 e.2 t.entries)
      rw [List.map_cons, List.foldl_cons, List.foldl_cons, hput]
      exact ih (t.insert e.1 e.2)
  exact hstep l empty

theorem find_put (k k' : String) (v : α) (l : List (String × α)) :
    find k' (put k v l) = if k' = k then some v else find k' l := by
  induction l with
  | nil => simp [put, find, eq_comm]
  | cons e r ih =>
    by_cases he : e.1 = k
    · by_cases h : k' = k
      · simp [put, find, he, h]
      · simp [put, find, he, h, Ne.symm h]
    · by_cases h : e.1 = k'
      · have hk : ¬ k' = k := fun hh => he (h.trans hh)
        simp [put, find, h, hk]
      · simp [put, find, he, h, ih]

theorem get?_insert (t : Table α) (k k' : String) (v : α) :
    (t.insert k v).get? k' = if k' = k then some v else t.get? k' :=
  find_put k k' v t.entries

@[simp] theorem get?_insert_self (t : Table α) (k : String) (v : α) :
    (t.insert k v).get? k = some v := by
  simp [get?_insert]

theorem find_map (f : α → β) (k : String) (l : List (String × α)) :
    find k (l.map fun e => (e.1, f e.2)) = (find k l).map f := by
  induction l with
  | nil => rfl
  | cons e r ih => by_cases h : e.1 = k <;> simp [find, h, ih]

theorem get?_map (f : α → β) (t : Table α) (k : String) : (t.map f).get? k = (t.get? k).map f :=
  find_map f k t.entries

theorem get?_filter (p : String → α → Bool) (t : Table α) (k : String) :
    (t.filter p).get? k = (t.get? k).filter (p k) := by
  ext v
  rw [get?_eq_some_iff, Option.filter_eq_some_iff, get?_eq_some_iff]
  simp [filter]

theorem get?_erase (t : Table α) (k k' : String) :
    (t.erase k).get? k' = if k' = k then none else t.get? k' := by
  rw [erase, get?_filter]
  by_cases h : k' = k <;> cases t.get? k' <;> simp [h]

theorem find_modify (k k' : String) (f : α → α) (l : List (String × α)) :
    find k' (l.map fun e => if e.1 = k then (e.1, f e.2) else e) =
      if k' = k then (find k' l).map f else find k' l := by
  induction l with
  | nil => simp [find]
  | cons e r ih =>
    by_cases h : e.1 = k'
    · by_cases he : e.1 = k
      · simp [find, ← he, ← h]
      · have hk : ¬ k' = k := fun hh => he (h.trans hh)
        simp [find, h, hk]
    · by_cases he : e.1 = k
      · simp only [List.map_cons, he, if_true, find, ih]
        simp [← he, h]
      · simp [find, he, h, ih]

theorem get?_modify (t : Table α) (k k' : String) (f : α → α) :
    (t.modify k f).get? k' = if k' = k then (t.get? k').map f else t.get? k' :=
  find_modify k k' f t.entries

theorem keys_insert (t : Table α) (k : String) (v : α) :
    (t.insert k v).keys = if k ∈ t.keys then t.keys else t.keys ++ [k] :=
  keys_put k v t.entries

/-- The names in a table are those that were written. -/
theorem mem_keys_ofList {k : String} {l : List (String × α)} :
    k ∈ (ofList l).keys ↔ k ∈ l.map Prod.fst := by
  have hstep : ∀ (r : List (String × α)) (t : Table α),
      k ∈ (r.foldl (fun t e => t.insert e.1 e.2) t).keys ↔ k ∈ t.keys ∨ k ∈ r.map Prod.fst := by
    intro r
    induction r with
    | nil => simp
    | cons e r ih =>
      intro t
      rw [List.foldl_cons, ih, keys_insert, List.map_cons, List.mem_cons]
      by_cases he : e.1 ∈ t.keys
      · rw [if_pos he]
        refine ⟨Or.imp_right .inr, ?_⟩
        rintro (h | rfl | h)
        · exact .inl h
        · exact .inl he
        · exact .inr h
      · rw [if_neg he, List.mem_append, List.mem_singleton, or_assoc]
  rw [ofList, hstep, keys_empty]
  simp

@[simp] theorem keys_map (f : α → β) (t : Table α) : (t.map f).keys = t.keys := by
  simp [keys, map, List.map_map, Function.comp_def]

theorem keys_erase (t : Table α) (k : String) : (t.erase k).keys = t.keys.filter (· ≠ k) := by
  simp [keys, erase, filter, List.filter_map, Function.comp_def]

@[simp] theorem keys_modify (t : Table α) (k : String) (f : α → α) :
    (t.modify k f).keys = t.keys := by
  unfold keys modify
  rw [List.map_map]
  apply List.map_congr_left
  intro e _
  by_cases he : e.1 = k <;> simp [he]

theorem put_put (k : String) (u v : α) (l : List (String × α)) : put k v (put k u l) = put k v l := by
  induction l with
  | nil => simp [put]
  | cons e r ih => by_cases h : e.1 = k <;> simp [put, h, ih]

theorem put_of_find {k : String} {v : α} {l : List (String × α)} (h : find k l = some v) :
    put k v l = l := by
  induction l with
  | nil => simp [find] at h
  | cons e r ih =>
    by_cases he : e.1 = k
    · simp only [find, he, if_true, Option.some.injEq] at h
      simp [put, he, ← h, Prod.ext_iff]
    · simp only [find, he, if_false] at h
      simp [put, he, ih h]

/-- Writing the old value back. -/
theorem insert_insert_of_get? {t : Table α} {k : String} {v : α} (u : α) (h : t.get? k = some v) :
    (t.insert k u).insert k v = t := by
  refine Table.ext ?_
  calc put k v (put k u t.entries) = put k v t.entries := put_put k u v t.entries
    _ = t.entries := put_of_find h

theorem erase_insert_of_none {t : Table α} {k : String} (v : α) (h : t.get? k = none) :
    (t.insert k v).erase k = t := by
  have hk : ∀ e ∈ t.entries, e.1 ≠ k := fun e he hek =>
    (get?_eq_none_iff t k).mp h (hek ▸ List.mem_map_of_mem he)
  refine Table.ext ?_
  show (t.insert k v).entries.filter (fun e => decide (e.1 ≠ k)) = t.entries
  rw [entries_insert_of_none v h, List.filter_append, List.filter_eq_self.mpr (by simpa using hk)]
  simp

theorem modify_modify (t : Table α) (k : String) (f g : α → α) :
    (t.modify k f).modify k g = t.modify k (g ∘ f) := by
  refine Table.ext ?_
  simp only [modify, List.map_map]
  refine List.map_congr_left fun e _ => ?_
  by_cases he : e.1 = k <;> simp [he]

theorem modify_eq_self {t : Table α} {k : String} {f : α → α} (h : ∀ v, t.get? k = some v → f v = v) :
    t.modify k f = t := by
  refine Table.ext ?_
  refine List.map_congr_left (fun e he => ?_) |>.trans (List.map_id _)
  by_cases hk : e.1 = k
  · have hv := h e.2 (hk ▸ get?_eq_some_iff.mpr he)
    simp [hk, hv, Prod.ext_iff]
  · simp [hk]

theorem map_eq_self {t : Table α} {f : α → α} (h : ∀ k v, t.get? k = some v → f v = v) :
    t.map f = t := by
  refine Table.ext ?_
  refine List.map_congr_left (fun e he => ?_) |>.trans (List.map_id _)
  rw [h e.1 e.2 (get?_eq_some_iff.mpr he)]
  rfl

end Table

end BlockSketch
