namespace BlockSketch

variable {α : Type}

/-- Puts `x` in front of the first item that it does not come after. -/
def insertBy (le : α → α → Bool) (x : α) : List α → List α
  | [] => [x]
  | y :: r => if le x y then x :: y :: r else y :: insertBy le x r

/-- Sorts by `le`; items that come before each other keep their order. -/
def sortBy (le : α → α → Bool) : List α → List α
  | [] => []
  | x :: r => insertBy le x (sortBy le r)

def sortByKey (key : α → Nat) : List α → List α := sortBy fun a b => decide (key a ≤ key b)

def sortTexts : List String → List String := sortBy fun a b => decide (¬ b < a)

theorem insertBy_perm (le : α → α → Bool) (x : α) (l : List α) :
    (insertBy le x l).Perm (x :: l) := by
  induction l with
  | nil => exact List.Perm.refl _
  | cons y r ih =>
    unfold insertBy
    split
    · exact List.Perm.refl _
    · exact (List.Perm.cons y ih).trans (List.Perm.swap x y r)

theorem sortBy_perm (le : α → α → Bool) (l : List α) : (sortBy le l).Perm l := by
  induction l with
  | nil => exact List.Perm.refl _
  | cons x r ih => exact (insertBy_perm le x _).trans (List.Perm.cons x ih)

theorem pairwise_insertBy_stable (key : α → Nat) {R : α → α → Prop} (x : α) {l : List α}
    (hx : ∀ y ∈ l, R x y) (h : l.Pairwise fun a b => key a < key b ∨ key a = key b ∧ R a b) :
    (insertBy (fun a b => decide (key a ≤ key b)) x l).Pairwise
      fun a b => key a < key b ∨ key a = key b ∧ R a b := by
  induction l with
  | nil => exact List.pairwise_singleton _ _
  | cons y r ih =>
    have hy := (List.pairwise_cons.mp h).1
    unfold insertBy
    split
    · rename_i hxy
      have hle : key x ≤ key y := of_decide_eq_true hxy
      refine List.pairwise_cons.mpr ⟨?_, h⟩
      intro z hz
      have hR := hx z hz
      have hz' : key y ≤ key z := by
        rcases List.mem_cons.mp hz with rfl | hz
        · exact Nat.le_refl _
        · have := hy z hz
          omega
      by_cases heq : key x = key z
      · exact .inr ⟨heq, hR⟩
      · exact .inl (by omega)
    · rename_i hxy
      have hlt : key y < key x := by simpa using hxy
      refine List.pairwise_cons.mpr ⟨?_, ih (fun z hz => hx z (List.mem_cons_of_mem y hz))
        (List.pairwise_cons.mp h).2⟩
      intro z hz
      rcases List.mem_cons.mp ((insertBy_perm _ x r).mem_iff.mp hz) with rfl | hz
      · exact .inl hlt
      · exact hy z hz

/-- Sorting is stable: items of one key keep whatever order they had. -/
theorem pairwise_sortByKey_stable (key : α → Nat) {R : α → α → Prop} {l : List α}
    (h : l.Pairwise R) :
    (sortByKey key l).Pairwise fun a b => key a < key b ∨ key a = key b ∧ R a b := by
  induction l with
  | nil => exact List.Pairwise.nil
  | cons x r ih =>
    obtain ⟨hx, hr⟩ := List.pairwise_cons.mp h
    refine pairwise_insertBy_stable key x (fun y hy => hx y ?_) (ih hr)
    exact (sortBy_perm _ r).mem_iff.mp hy

end BlockSketch
