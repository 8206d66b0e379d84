import BlockSketch.Proofs.Program.Congruence

namespace BlockSketch.Program

variable {α β : Type}

/-- The later trail has entered more blocks, each of them once. -/
def Trail.Extends (t t' : Trail) : Prop :=
  ∃ ids, t'.visited = ids ++ t.visited ∧ ids.Nodup ∧ ∀ id ∈ ids, id ∉ t.visited

namespace Trail.Extends

variable {s t u : Trail}

theorem of_eq (h : u.visited = t.visited) : t.Extends u :=
  ⟨[], h, List.nodup_nil, by simp⟩

theorem visit {id : String} (h : id ∉ t.visited) :
    t.Extends { t with visited := id :: t.visited } :=
  ⟨[id], rfl, List.nodup_singleton id, by simpa using h⟩

theorem trans (h : s.Extends t) (h' : t.Extends u) : s.Extends u := by
  obtain ⟨ids, ht, hn, hnew⟩ := h
  obtain ⟨ids', hu, hn', hnew'⟩ := h'
  rw [ht] at hu hnew'
  refine ⟨ids' ++ ids, by rw [hu, List.append_assoc], ?_, ?_⟩
  · refine List.nodup_append.mpr ⟨hn', hn, fun i hi j hj hij => ?_⟩
    exact hnew' i hi (List.mem_append_left _ (hij ▸ hj))
  · intro id hid
    rcases List.mem_append.mp hid with hid | hid
    · exact fun hs => hnew' id hid (List.mem_append_right _ hs)
    · exact hnew id hid

theorem subset (h : t.Extends u) {id : String} (hid : id ∈ t.visited) : id ∈ u.visited := by
  obtain ⟨ids, hu, -⟩ := h
  rw [hu]
  exact List.mem_append_right _ hid

theorem nodup (h : t.Extends u) (ht : t.visited.Nodup) : u.visited.Nodup := by
  obtain ⟨ids, hu, hn, hnew⟩ := h
  rw [hu, List.nodup_append]
  exact ⟨hn, ht, fun i hi j hj hij => hnew i hi (hij ▸ hj)⟩

end Trail.Extends

def Context.remaining (c : Context) (t : Trail) : List String :=
  c.workspace.blocks.keys.filter fun id => decide (id ∉ t.visited)

theorem length_remaining_le (c : Context) (t : Trail) :
    (c.remaining t).length ≤ c.workspace.size := by
  have hle : (c.remaining t).length ≤ c.workspace.blocks.keys.length := List.length_filter_le _ _
  simpa [Table.keys, Workspace.size, Table.size] using hle

theorem Trail.Extends.length_remaining_le {t u : Trail} (h : t.Extends u) (c : Context) :
    (c.remaining u).length ≤ (c.remaining t).length := by
  refine (List.monotone_filter_right _ fun id hid => ?_).length_le
  have hnew : id ∉ u.visited := by simpa using hid
  simpa using fun ht => hnew (h.subset ht)

theorem length_remaining_visit_lt {c : Context} {t : Trail} {id : String} {b : Block}
    (hb : c.workspace.get? id = some b) (hid : id ∉ t.visited) :
    (c.remaining { t with visited := id :: t.visited }).length < (c.remaining t).length := by
  have hmem : id ∈ c.remaining t :=
    List.mem_filter.mpr ⟨Table.mem_keys_of_get? hb, by simpa using hid⟩
  have hrest : c.remaining { t with visited := id :: t.visited } =
      (c.remaining t).filter fun i => decide (i ≠ id) := by
    unfold Context.remaining
    rw [List.filter_filter]
    refine List.filter_congr fun i _ => ?_
    simp
  rw [hrest, List.length_filter_lt_length_iff_exists]
  exact ⟨id, hmem, by simp⟩

/-- A walk from this trail does not use up its depth. -/
def Settles (x : Walk α) (t : Trail) : Prop := ∀ id, (outcome x t).1 ≠ .error (.tooDeep id)

theorem Settles.of_bind {x : Walk α} {f : α → Walk β} {t : Trail} (h : Settles (x >>= f) t) :
    Settles x t := by
  intro id hx
  apply h id
  rw [outcome_bind]
  generalize outcome x t = o at hx
  obtain ⟨answer, u⟩ := o
  obtain rfl : answer = .error (.tooDeep id) := hx
  rfl

theorem Settles.of_ok_bind {x : Walk α} {f : α → Walk β} {a : α} {t u : Trail}
    (h : Settles (x >>= f) t) (hx : outcome x t = (.ok a, u)) : Settles (f a) u := by
  intro id hf
  apply h id
  rw [outcome_bind_of_ok hx]
  exact hf

/-- A walk enters new blocks only, also where it ends early. -/
def Grows (x : Walk α) : Prop := ∀ t : Trail, t.Extends (outcome x t).2

theorem Grows.pure (a : α) : Grows (pure a : Walk α) := fun _ => .of_eq rfl

theorem Grows.bind {x : Walk α} {f : α → Walk β} (hx : Grows x) (hf : ∀ a, Grows (f a)) :
    Grows (x >>= f) := by
  intro t
  have hext := hx t
  rw [outcome_bind]
  generalize outcome x t = o at hext ⊢
  obtain ⟨e | a, u⟩ := o
  · exact hext
  · exact hext.trans (hf a u)

/-- What the first part of a walk enters is still entered after the second. -/
theorem Grows.subset_bind {f : α → Walk β} (hf : ∀ a, Grows (f a)) {x : Walk α} {t : Trail}
    {id : String} (hid : id ∈ (outcome x t).2.visited) :
    id ∈ (outcome (x >>= f) t).2.visited := by
  rw [outcome_bind]
  generalize outcome x t = o at hid ⊢
  obtain ⟨e | a, u⟩ := o
  · exact hid
  · exact (hf a u).subset hid

theorem Grows.enter {f : Block → Walk β} (hf : ∀ b, Grows (f b)) (c : Context) (path : List String)
    (id : String) : Grows (enter c path id >>= f) := by
  intro t
  rw [outcome_bind, outcome_enter]
  split_ifs with hp hv
  · exact .of_eq rfl
  · exact .of_eq rfl
  · have hext := Trail.Extends.visit hv
    cases c.workspace.get? id with
    | none => exact hext
    | some b => exact hext.trans (hf b _)

/-- A walk does not use up a depth of `n` where fewer blocks remain. -/
structure Progresses (c : Context) (n : Nat) (x : Walk α) : Prop where
  grows : Grows x
  settles : ∀ t : Trail, (c.remaining t).length < n → Settles x t

namespace Progresses

variable {c : Context} {n m : Nat} {x : Walk α} {f : α → Walk β}

theorem mono (h : Progresses c n x) (hm : m ≤ n) : Progresses c m x :=
  ⟨h.grows, fun t ht => h.settles t (by omega)⟩

/-- There are never more blocks left than there are. -/
theorem settles_all (h : Progresses c n x) (hn : c.depth ≤ n) (t : Trail) : Settles x t :=
  h.settles t (Nat.lt_of_le_of_lt (length_remaining_le c t) hn)

theorem pure (c : Context) (n : Nat) (a : α) : Progresses c n (pure a) :=
  ⟨.pure a, fun _ _ id => by simp⟩

theorem bind (hx : Progresses c n x) (hf : ∀ a, Progresses c n (f a)) :
    Progresses c n (x >>= f) := by
  refine ⟨hx.grows.bind fun a => (hf a).grows, fun t ht id => ?_⟩
  have hext := hx.grows t
  have hset := hx.settles t ht id
  rw [outcome_bind]
  generalize outcome x t = o at hext hset ⊢
  obtain ⟨e | a, u⟩ := o
  · simpa using hset
  · exact (hf a).settles u (Nat.lt_of_le_of_lt (hext.length_remaining_le c) ht) id

theorem congruence (c : Context) (n : Nat) :
    Congruence fun _ x x' => x = x' ∧ Progresses c n x where
  pure a := ⟨rfl, .pure c n a⟩
  fail f := ⟨rfl, fun _ => .of_eq rfl, fun _ _ id => by simp⟩
  define key text := ⟨rfl, fun _ => .of_eq rfl, fun _ _ id => by simp⟩
  bind := by
    rintro α β x x' f f' ⟨rfl, hx⟩ hf
    obtain rfl : f = f' := funext fun a => (hf a).1
    exact ⟨rfl, hx.bind fun a => (hf a).2⟩

theorem tooDeep (id : String) : Progresses c 0 (throw (.tooDeep id) : Walk α) :=
  ⟨fun _ => .of_eq rfl, fun _ ht => absurd ht (Nat.not_lt_zero _)⟩

theorem enter {f : Block → Walk β} (hf : ∀ b, Progresses c n (f b)) (path : List String)
    (id : String) : Progresses c (n + 1) (Program.enter c path id >>= f) := by
  refine ⟨.enter (fun b => (hf b).grows) c path id, fun t ht i => ?_⟩
  rw [outcome_bind, outcome_enter]
  split_ifs with hp hv
  · simp
  · simp
  · cases hb : c.workspace.get? id with
    | none => simp
    | some b =>
      have hlt := length_remaining_visit_lt hb hv
      exact (hf b).settles _ (by omega) i

end Progresses

section Walks

variable {c : Context}

theorem applyRule_progresses {n : Nat}
    {expression' : List String → String → Walk (Option (String × Order))}
    {chain' : List String → Bool → String → Walk String}
    (he : ∀ path id, Progresses c n (expression' path id))
    (hc : ∀ path mayBeEntry id, Progresses c n (chain' path mayBeEntry id)) (path : List String)
    (shape : Shape) (b : Block) :
    Progresses c n (applyRule c (expression' path) (chain' path false) shape b) :=
  ((Progresses.congruence c n).rule rfl (.refl b) (fun id => ⟨rfl, he path id⟩)
    (fun id => ⟨rfl, hc path false id⟩)).2

theorem follow_progresses {apply : List String → Shape → Block → Walk Rendered} {depth : Nat}
    (ha : ∀ path shape b, Progresses c depth (apply path shape b)) (n : Nat) :
    ∀ path mayBeEntry id, Progresses c (min n (depth + 1)) (follow c apply n path mayBeEntry id) := by
  induction n with
  | zero =>
    intro path mayBeEntry id
    rw [Nat.zero_min]
    exact .tooDeep id
  | succ n ih =>
    intro path mayBeEntry id
    rw [Nat.add_min_add_right]
    refine Progresses.enter (fun b => ?_) path id
    have hR := Progresses.congruence c (min n depth)
    have hstep := hR.step (rfl : c.catalogue = c.catalogue) (.refl b)
      (fun shape => ⟨rfl, (ha (id :: path) shape b).mono (by omega)⟩)
      mayBeEntry
    refine hstep.2.bind fun code => ?_
    cases b.next with
    | none => exact .pure c _ code
    | some next => exact ((ih (id :: path) false next).mono (by omega)).bind fun rest => .pure c _ _

/-- Both kinds of walk have the depth that they need. -/
theorem walk_progresses (c : Context) (depth : Nat) :
    (∀ path id, Progresses c depth (expression c depth path id)) ∧
      ∀ path mayBeEntry id, Progresses c depth (chain c depth path mayBeEntry id) := by
  induction depth with
  | zero => exact ⟨fun _ id => .tooDeep id, fun _ _ id => .tooDeep id⟩
  | succ depth ih =>
    have hrule := applyRule_progresses ih.1 ih.2
    refine ⟨fun path id => ?_, fun path mayBeEntry id => ?_⟩
    · refine Progresses.enter (fun b => ?_) path id
      exact ((Progresses.congruence c depth).value rfl (.refl b)
        fun shape => ⟨rfl, hrule (id :: path) shape b⟩).2
    · have hfollow := follow_progresses hrule c.depth path mayBeEntry id
      rcases Nat.le_total (depth + 1) c.depth with hd | hd
      · exact hfollow.mono (Nat.le_min.mpr ⟨hd, Nat.le_refl _⟩)
      · refine ⟨hfollow.grows, fun t _ => hfollow.settles_all ?_ t⟩
        exact Nat.le_min.mpr ⟨Nat.le_refl _, hd⟩

theorem root_progresses (c : Context) (depth : Nat) (id : String) : Progresses c depth (root c depth id) :=
  ((Progresses.congruence c depth).root rfl (.refl c id) ⟨rfl, (walk_progresses c depth).1 [] id⟩
    ⟨rfl, (walk_progresses c depth).2 [] true id⟩).2

theorem rootTexts_progresses (c : Context) (depth : Nat) (roots : List String) :
    Progresses c depth (rootTexts c depth roots) := by
  induction roots with
  | nil => exact .pure c depth []
  | cons id rest ih =>
    exact (root_progresses c depth id).bind fun code => ih.bind fun others => .pure c depth _

end Walks

end BlockSketch.Program
