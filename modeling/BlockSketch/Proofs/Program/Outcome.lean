import BlockSketch.Program
import Mathlib.Tactic.SplitIfs

namespace BlockSketch.Program

variable {α β : Type}

/-- The answer of a walk that starts with the trail `t`, and the trail that it leaves. -/
def outcome (x : Walk α) (t : Trail) : Except Halt α × Trail := x.run.run t

theorem pass_eq_outcome (c : Context) (depth : Nat) (roots : List String) :
    pass c depth roots = outcome (rootTexts c depth roots) {} := rfl

/-- Options can be compared by evaluation, so a closed run is checked as one. -/
theorem eq_ok_of_toOption {ε : Type} {e : Except ε α} {a : α} (h : e.toOption = some a) : e = .ok a := by
  cases e with
  | error f => simp [Except.toOption] at h
  | ok a' => simpa [Except.toOption] using h

@[simp] theorem outcome_pure (a : α) (t : Trail) : outcome (pure a) t = (.ok a, t) := rfl

@[simp] theorem outcome_fail (f : Fault) (t : Trail) :
    outcome (fail f : Walk α) t = (.error (.fault f), t) := rfl

@[simp] theorem outcome_throw (e : Halt) (t : Trail) :
    outcome (throw e : Walk α) t = (.error e, t) := rfl

@[simp] theorem outcome_get (t : Trail) : outcome (get : Walk Trail) t = (.ok t, t) := rfl

@[simp] theorem outcome_modify (f : Trail → Trail) (t : Trail) :
    outcome (modify f : Walk PUnit) t = (.ok ⟨⟩, f t) := rfl

theorem outcome_bind (x : Walk α) (f : α → Walk β) (t : Trail) :
    outcome (x >>= f) t =
      match outcome x t with
      | (.ok a, t') => outcome (f a) t'
      | (.error e, t') => (.error e, t') := by
  unfold outcome
  simp only [ExceptT.run_bind, StateT.run_bind]
  change (match StateT.run (ExceptT.run x) t with | (r, t') => _) = _
  rcases StateT.run (ExceptT.run x) t with ⟨e | a, t'⟩ <;> rfl

theorem outcome_bind_of_ok {x : Walk α} {a : α} {t t' : Trail} (h : outcome x t = (.ok a, t'))
    (f : α → Walk β) : outcome (x >>= f) t = outcome (f a) t' := by
  rw [outcome_bind, h]

theorem outcome_bind_of_error {x : Walk α} {e : Halt} {t t' : Trail}
    (h : outcome x t = (.error e, t')) (f : α → Walk β) :
    outcome (x >>= f) t = (.error e, t') := by
  rw [outcome_bind, h]

theorem outcome_bind_congr {x x' : Walk α} {f f' : α → Walk β} {t : Trail}
    (hx : outcome x' t = outcome x t)
    (hf : ∀ a u, outcome x t = (.ok a, u) → outcome (f' a) u = outcome (f a) u) :
    outcome (x' >>= f') t = outcome (x >>= f) t := by
  rw [outcome_bind, outcome_bind, hx]
  rcases ho : outcome x t with ⟨e | a, u⟩
  · rfl
  · exact hf a u ho

theorem ok_of_outcome_bind {x : Walk α} {f : α → Walk β} {r : β} {t t' : Trail}
    (h : outcome (x >>= f) t = (.ok r, t')) :
    ∃ a s, outcome x t = (.ok a, s) ∧ outcome (f a) s = (.ok r, t') := by
  rw [outcome_bind] at h
  rcases hx : outcome x t with ⟨e | a, s⟩
  · simp [hx] at h
  · exact ⟨a, s, rfl, by simpa [hx] using h⟩

/-- A walk in two parts is ended early by the first one, or by the second after the first. -/
theorem error_of_outcome_bind {x : Walk α} {f : α → Walk β} {e : Halt} {t t' : Trail}
    (h : outcome (x >>= f) t = (.error e, t')) :
    outcome x t = (.error e, t') ∨
      ∃ a s, outcome x t = (.ok a, s) ∧ outcome (f a) s = (.error e, t') := by
  rw [outcome_bind] at h
  rcases hx : outcome x t with ⟨e' | a, s⟩
  · left
    simpa [hx] using h
  · right
    exact ⟨a, s, rfl, by simpa [hx] using h⟩

theorem ok_of_outcome_pure {a r : α} {t t' : Trail}
    (h : outcome (pure a : Walk α) t = (.ok r, t')) : a = r ∧ t = t' := by
  simpa only [outcome_pure, Prod.mk.injEq, Except.ok.injEq] using h

theorem error_of_outcome_fail {f : Fault} {e : Halt} {t t' : Trail}
    (h : outcome (fail f : Walk α) t = (.error e, t')) : e = .fault f := by
  simp only [outcome_fail, Prod.mk.injEq, Except.error.injEq] at h
  exact h.1.symm

theorem fail_bind (f : Fault) (k : α → Walk β) : fail f >>= k = fail f := rfl

theorem lookup_of_some {c : Context} {id : String} {b : Block}
    (h : c.workspace.get? id = some b) : lookup c id = pure b := by
  simp [lookup, h]

theorem lookup_of_none {c : Context} {id : String} (h : c.workspace.get? id = none) :
    lookup c id = fail (.missing id) := by
  simp [lookup, h]

theorem shapeOf_of_some {c : Context} {b : Block} {shape : Shape}
    (h : c.catalogue.shape? b.typeId = some shape) : shapeOf c b = pure shape := by
  simp [shapeOf, h]

theorem shapeOf_of_none {c : Context} {b : Block} (h : c.catalogue.shape? b.typeId = none) :
    shapeOf c b = fail (.unknownType b.id b.typeId) := by
  simp [shapeOf, h]

theorem ok_of_shapeOf_bind {c : Context} {b : Block} {k : Shape → Walk α} {r : α} {t t' : Trail}
    (h : outcome (shapeOf c b >>= k) t = (.ok r, t')) :
    ∃ shape, c.catalogue.shape? b.typeId = some shape ∧ outcome (k shape) t = (.ok r, t') := by
  cases hs : c.catalogue.shape? b.typeId with
  | none => simp [shapeOf_of_none hs, outcome_bind] at h
  | some shape =>
    rw [shapeOf_of_some hs, pure_bind] at h
    exact ⟨shape, rfl, h⟩

theorem error_of_shapeOf_bind {c : Context} {b : Block} {k : Shape → Walk α} {e : Halt}
    {t t' : Trail} (h : outcome (shapeOf c b >>= k) t = (.error e, t')) :
    (e = .fault (.unknownType b.id b.typeId) ∧ c.catalogue.shape? b.typeId = none) ∨
      ∃ shape, c.catalogue.shape? b.typeId = some shape ∧ outcome (k shape) t = (.error e, t') := by
  cases hs : c.catalogue.shape? b.typeId with
  | none =>
    rw [shapeOf_of_none hs, outcome_bind, outcome_fail, Prod.mk.injEq, Except.error.injEq] at h
    exact .inl ⟨h.1.symm, rfl⟩
  | some shape =>
    rw [shapeOf_of_some hs, pure_bind] at h
    exact .inr ⟨shape, rfl, h⟩

/-- The outcome of entering a block, case by case. -/
theorem outcome_enter (c : Context) (path : List String) (id : String) (t : Trail) :
    outcome (enter c path id) t =
      if id ∈ path then (.error (.fault (.cyclic id)), t)
      else if id ∈ t.visited then (.error (.fault (.shared id)), t)
      else
        match c.workspace.get? id with
        | some b => (.ok b, { t with visited := id :: t.visited })
        | none => (.error (.fault (.missing id)), { t with visited := id :: t.visited }) := by
  unfold enter
  split
  · rfl
  · rw [outcome_bind_of_ok (outcome_get t)]
    split
    · rfl
    · rw [outcome_bind_of_ok (outcome_modify _ t)]
      cases hb : c.workspace.get? id with
      | none => rw [lookup_of_none hb, outcome_fail]
      | some b => rw [lookup_of_some hb, outcome_pure]

theorem outcome_enter_of_some {c : Context} {path : List String} {id : String} {b : Block} {t : Trail}
    (hp : id ∉ path) (hv : id ∉ t.visited) (hb : c.workspace.get? id = some b) :
    outcome (enter c path id) t = (.ok b, { t with visited := id :: t.visited }) := by
  rw [outcome_enter, if_neg hp, if_neg hv, hb]

theorem outcome_enter_of_none {c : Context} {path : List String} {id : String} {t : Trail}
    (hp : id ∉ path) (hv : id ∉ t.visited) (hb : c.workspace.get? id = none) :
    outcome (enter c path id) t =
      (.error (.fault (.missing id)), { t with visited := id :: t.visited }) := by
  rw [outcome_enter, if_neg hp, if_neg hv, hb]

theorem enter_ok {c : Context} {path : List String} {id : String} {b : Block} {t t' : Trail}
    (h : outcome (enter c path id) t = (.ok b, t')) :
    id ∉ path ∧ id ∉ t.visited ∧ c.workspace.get? id = some b ∧
      t' = { t with visited := id :: t.visited } := by
  rw [outcome_enter] at h
  split_ifs at h with hp hv
  · simp at h
  · simp at h
  · cases hb : c.workspace.get? id with
    | none => simp [hb] at h
    | some b' =>
      simp only [hb, Prod.mk.injEq, Except.ok.injEq] at h
      obtain ⟨rfl, rfl⟩ := h
      exact ⟨hp, hv, rfl, rfl⟩

theorem enter_error {c : Context} {path : List String} {id : String} {e : Halt} {t t' : Trail}
    (h : outcome (enter c path id) t = (.error e, t')) :
    (e = .fault (.cyclic id) ∧ t' = t ∧ id ∈ path) ∨
      (e = .fault (.shared id) ∧ t' = t ∧ id ∉ path ∧ id ∈ t.visited) ∨
      (e = .fault (.missing id) ∧ c.workspace.get? id = none) := by
  rw [outcome_enter] at h
  split_ifs at h with hp hv
  · simp only [Prod.mk.injEq, Except.error.injEq] at h
    exact .inl ⟨h.1.symm, h.2.symm, hp⟩
  · simp only [Prod.mk.injEq, Except.error.injEq] at h
    exact .inr (.inl ⟨h.1.symm, h.2.symm, hp, hv⟩)
  · cases hb : c.workspace.get? id with
    | none =>
      simp only [hb, Prod.mk.injEq, Except.error.injEq] at h
      exact .inr (.inr ⟨h.1.symm, rfl⟩)
    | some b => simp [hb] at h

end BlockSketch.Program
