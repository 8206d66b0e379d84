import BlockSketch.Text.Lines

namespace BlockSketch.Text

section Cutting

variable {α : Type} {sep : α}

/-- What a list is cut into: each piece has `sep` at its end and nowhere else, and a last piece may be
without it. -/
inductive Cut (sep : α) : List (List α) → Prop where
  | nil : Cut sep []
  | last {line : List α} (hne : line ≠ []) (hsep : sep ∉ line) : Cut sep [line]
  | cons {line : List α} {pieces : List (List α)} (hsep : sep ∉ line) (hs : Cut sep pieces) :
    Cut sep ((line ++ [sep]) :: pieces)

theorem Cut.map_append {margin : List α} (hm : sep ∉ margin) {pieces : List (List α)}
    (h : Cut sep pieces) : Cut sep (pieces.map (margin ++ ·)) := by
  induction h with
  | nil => exact .nil
  | last hne hsep => exact .last (by simp [hne]) (by simp [hm, hsep])
  | cons hsep hs ih =>
    rw [List.map_cons, ← List.append_assoc]
    exact .cons (by simp [hm, hsep]) ih

variable [DecidableEq α]

theorem cutAfter_sep (r : List α) : cutAfter sep (sep :: r) = [sep] :: cutAfter sep r :=
  if_pos rfl

theorem cutAfter_cons_of_ne {c : α} {r p : List α} {ps : List (List α)} (hc : c ≠ sep)
    (hr : cutAfter sep r = p :: ps) : cutAfter sep (c :: r) = (c :: p) :: ps := by
  unfold cutAfter
  rw [if_neg hc, hr]

theorem eq_nil_of_cutAfter {s : List α} (h : cutAfter sep s = []) : s = [] := by
  have hflat := flatten_cutAfter sep s
  rwa [h, List.flatten_nil, eq_comm] at hflat

theorem cutAfter_append (a b : List α) :
    cutAfter sep (a ++ sep :: b) = cutAfter sep (a ++ [sep]) ++ cutAfter sep b := by
  induction a with
  | nil => simp [cutAfter]
  | cons c r ih =>
    by_cases hc : c = sep
    · subst hc
      simp only [List.cons_append, cutAfter_sep, ih]
    · cases hr : cutAfter sep (r ++ [sep]) with
      | nil => simpa using eq_nil_of_cutAfter hr
      | cons p ps =>
        rw [hr, List.cons_append] at ih
        rw [List.cons_append, List.cons_append, cutAfter_cons_of_ne hc ih, cutAfter_cons_of_ne hc hr,
          List.cons_append]

theorem cutAfter_of_not_mem {line : List α} (hne : line ≠ []) (h : sep ∉ line) :
    cutAfter sep line = [line] := by
  induction line with
  | nil => exact absurd rfl hne
  | cons c r ih =>
    rw [List.mem_cons, not_or] at h
    cases r with
    | nil => simp [cutAfter, Ne.symm h.1]
    | cons d r => exact cutAfter_cons_of_ne (Ne.symm h.1) (ih (by simp) h.2)

theorem cutAfter_append_sep {line : List α} (h : sep ∉ line) (s : List α) :
    cutAfter sep (line ++ sep :: s) = (line ++ [sep]) :: cutAfter sep s := by
  induction line with
  | nil => exact cutAfter_sep s
  | cons c r ih =>
    rw [List.mem_cons, not_or] at h
    exact cutAfter_cons_of_ne (Ne.symm h.1) (ih h.2)

theorem cut_cutAfter (s : List α) : Cut sep (cutAfter sep s) := by
  induction s with
  | nil => exact .nil
  | cons c r ih =>
    by_cases hc : c = sep
    · subst hc
      rw [cutAfter_sep, ← List.nil_append [c]]
      exact .cons (by simp) ih
    · cases hr : cutAfter sep r with
      | nil =>
        obtain rfl := eq_nil_of_cutAfter hr
        simpa [cutAfter, hc] using Cut.last (by simp) (by simpa using Ne.symm hc)
      | cons p ps =>
        rw [hr] at ih
        rw [cutAfter_cons_of_ne hc hr]
        -- The first piece has one more character in front, and its end is the same.
        cases ih with
        | last hne hsep => exact .last (by simp) (by simp [Ne.symm hc, hsep])
        | cons hsep hs =>
          rw [← List.cons_append]
          exact .cons (by simp [Ne.symm hc, hsep]) hs

theorem Cut.cutAfter_flatten {pieces : List (List α)} (h : Cut sep pieces) :
    cutAfter sep pieces.flatten = pieces := by
  induction h with
  | nil => rfl
  | last hne hsep =>
    rw [List.flatten_singleton]
    exact cutAfter_of_not_mem hne hsep
  | cons hsep hs ih =>
    rw [List.flatten_cons, List.append_assoc, List.singleton_append, cutAfter_append_sep hsep, ih]

end Cutting

/-- A line without the margin that it starts with. -/
def withoutMargin? (margin line : List Char) : Option (List Char) :=
  if margin.isPrefixOf line then some (line.drop margin.length) else none

/-- Takes one margin off every line. There is no answer if a line does not start with it. -/
def unindentLines? (margin code : String) : Option String :=
  ((cutAfter '\n' code.toList).mapM (withoutMargin? margin.toList)).map fun lines =>
    String.ofList lines.flatten

section Margin

variable {margin code : String}

theorem indentLines_empty (margin : String) : indentLines margin "" = margin := by
  simp [indentLines, marginAfterFeeds]

theorem toList_indentLines (margin : String) (h : code ≠ "") :
    (indentLines margin code).toList = ((cutAfter '\n' code.toList).map (margin.toList ++ ·)).flatten := by
  rw [indentLines, String.toList_ofList, append_marginAfterFeeds _ _ (by simpa using h)]
  exact List.flatMap_def

/-- The lines of an indented text are those of the text, each with the margin. -/
theorem cutAfter_indentLines (hm : '\n' ∉ margin.toList) (h : code ≠ "") :
    cutAfter '\n' (indentLines margin code).toList =
      (cutAfter '\n' code.toList).map (margin.toList ++ ·) := by
  rw [toList_indentLines margin h]
  exact ((cut_cutAfter code.toList).map_append hm).cutAfter_flatten

theorem indentLines_of_not_mem (margin : String) (h : '\n' ∉ code.toList) :
    indentLines margin code = margin ++ code := by
  by_cases hcode : code = ""
  · rw [hcode, indentLines_empty, String.append_empty]
  · rw [String.ext_iff, toList_indentLines margin hcode, cutAfter_of_not_mem (by simpa using hcode) h]
    simp

theorem indentLines_ne_empty (hm : '\n' ∉ margin.toList) (h : code ≠ "") :
    indentLines margin code ≠ "" := by
  intro hempty
  have hpieces := cutAfter_indentLines hm h
  rw [hempty] at hpieces
  exact h (by simpa using eq_nil_of_cutAfter (List.map_eq_nil_iff.mp hpieces.symm))

theorem indentLines_append (margin : String) {a b : String} (ha : a.toList.getLast? = some '\n')
    (hb : b ≠ "") : indentLines margin (a ++ b) = indentLines margin a ++ indentLines margin b := by
  obtain ⟨r, hr⟩ := List.getLast?_eq_some_iff.mp ha
  have hne : a ≠ "" := by
    rintro rfl
    simp at hr
  have hcut : cutAfter '\n' (a ++ b).toList = cutAfter '\n' a.toList ++ cutAfter '\n' b.toList := by
    rw [String.toList_append, hr, List.append_assoc, List.singleton_append, cutAfter_append]
  rw [String.ext_iff, String.toList_append, toList_indentLines margin (by simp [hne]),
    toList_indentLines margin hne, toList_indentLines margin hb, hcut, List.map_append,
    List.flatten_append]

theorem indentLines_indentLines (hm : '\n' ∉ margin.toList) (outer code : String) :
    indentLines outer (indentLines margin code) = indentLines (outer ++ margin) code := by
  by_cases h : code = ""
  · subst h
    rw [indentLines_empty, indentLines_empty, indentLines_of_not_mem outer hm]
  · rw [String.ext_iff, toList_indentLines outer (indentLines_ne_empty hm h), cutAfter_indentLines hm h,
      toList_indentLines _ h, List.map_map]
    simp [Function.comp_def]

theorem mapM_withoutMargin? (margin : List Char) (lines : List (List Char)) :
    (lines.map (margin ++ ·)).mapM (withoutMargin? margin) = some lines := by
  have hline (line : List Char) : withoutMargin? margin (margin ++ line) = some line := by
    simp [withoutMargin?]
  induction lines with
  | nil => rfl
  | cons line lines ih => simp [hline, ih]

theorem unindentLines?_indentLines (hm : '\n' ∉ margin.toList) (code : String) :
    unindentLines? margin (indentLines margin code) = some code := by
  unfold unindentLines?
  by_cases h : code = ""
  · subst h
    rw [indentLines_empty]
    by_cases hempty : margin = ""
    · subst hempty
      rfl
    · -- The margin itself is the only line.
      have hlines := mapM_withoutMargin? margin.toList [[]]
      rw [List.map_singleton, List.append_nil] at hlines
      rw [cutAfter_of_not_mem (by simpa using hempty) hm, hlines]
      rfl
  · rw [cutAfter_indentLines hm h, mapM_withoutMargin?, Option.map_some, flatten_cutAfter,
      String.ofList_toList]

end Margin

/-- A margin goes line by line: whole lines and what comes after them get it apart, a margin in front of a
margin is one, and to take it off every line leads back. -/
theorem indentLines_by_line :
    (∀ margin a b : String, a.toList.getLast? = some '\n' → b ≠ "" →
      indentLines margin (a ++ b) = indentLines margin a ++ indentLines margin b) ∧
    (∀ margin outer code : String, '\n' ∉ margin.toList →
      indentLines outer (indentLines margin code) = indentLines (outer ++ margin) code) ∧
    (∀ margin code : String, '\n' ∉ margin.toList →
      unindentLines? margin (indentLines margin code) = some code) :=
  ⟨fun margin _ _ ha hb => indentLines_append margin ha hb,
    fun _ outer code hm => indentLines_indentLines hm outer code,
    fun _ code hm => unindentLines?_indentLines hm code⟩

/-- An empty line inside gets the margin too, and the end of the text does not. -/
theorem indentLines_by_line_sample :
    indentLines "  " ("a;\n\n" ++ "b;") = "  a;\n  \n" ++ "  b;" ∧
      indentLines "//" (indentLines "  " "a;\n\nb;\n") = "//  a;\n//  \n//  b;\n" ∧
      unindentLines? "  " (indentLines "  " "a;\n\n  b;\n") = some "a;\n\n  b;\n" := by
  obtain ⟨happend, htwice, hback⟩ := indentLines_by_line
  refine ⟨?_, ?_, hback _ _ (by decide)⟩
  · rw [happend "  " "a;\n\n" "b;" (by decide) (by decide)]
    decide
  · rw [htwice _ _ _ (by decide)]
    decide

end BlockSketch.Text
