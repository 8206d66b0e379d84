import BlockSketch.Case.Expectation
import Mathlib.Data.List.Infix
import Mathlib.Tactic.SplitIfs

namespace BlockSketch.Case

def fence : List Char := ['-', '-', '-']

section Cut

variable {c : Char} {line r : List Char}

theorem cutAtFence_fence (r : List Char) : cutAtFence ('\n' :: (fence ++ r)) = some ([], r) := rfl

theorem cutAtFence_cons (h : ¬ '\n' :: fence <+: c :: r) :
    cutAtFence (c :: r) = (cutAtFence r).map fun p => (c :: p.1, p.2) := by
  rw [cutAtFence]
  rintro r' rfl rfl
  exact h ⟨r', rfl⟩

/-- Nothing is cut off before the first line feed. -/
theorem cutAtFence_append (h : '\n' ∉ line) (r : List Char) :
    cutAtFence (line ++ r) = (cutAtFence r).map fun p => (line ++ p.1, p.2) := by
  induction line with
  | nil => simp
  | cons c line ih =>
    rw [List.mem_cons, not_or] at h
    have hc : ¬ '\n' :: fence <+: c :: (line ++ r) := fun hp => h.1 (List.cons_prefix_cons.mp hp).1
    rw [List.cons_append, cutAtFence_cons hc, ih h.2, Option.map_map]
    rfl

/-- There is nothing to cut at exactly if no line but the first starts with a fence. -/
theorem cutAtFence_eq_none_iff (s : List Char) : cutAtFence s = none ↔ ¬ '\n' :: fence <:+: s := by
  induction s with
  | nil => simp [cutAtFence]
  | cons c r ih =>
    rw [List.infix_cons_iff, not_or]
    by_cases hp : '\n' :: fence <+: c :: r
    · obtain ⟨r', hr⟩ := hp
      rw [← hr]
      simp [cutAtFence_fence]
    · rw [cutAtFence_cons hp, Option.map_eq_none_iff, ih]
      simp [hp]

/-- Whether a line starts with a fence does not depend on what comes after it. -/
theorem fence_prefix_line (h : fence <+: line ++ '\n' :: r) : fence <+: line := by
  rcases line with _ | ⟨_, _ | ⟨_, _ | ⟨_, line⟩⟩⟩
  · simp [fence] at h
  · simp [fence] at h
  · simp [fence] at h
  · simpa [fence] using h

/-- The lines up to the first fence, whatever the first of them starts with. -/
theorem cutAtFence_lines (first : List Char) (lines : List (List Char)) (rest : List Char)
    (hfeeds : ∀ l ∈ first :: lines, '\n' ∉ l) (hfences : ∀ l ∈ lines, ¬ fence <+: l) :
    cutAtFence ((first :: lines).flatMap (· ++ ['\n']) ++ (fence ++ rest)) =
      some (['\n'].intercalate (first :: lines), rest) := by
  induction lines generalizing first with
  | nil =>
    have hfirst : '\n' ∉ first := hfeeds first (by simp)
    simp [cutAtFence_append hfirst, cutAtFence_fence]
  | cons l lines ih =>
    obtain ⟨hfirst, hrest⟩ := List.forall_mem_cons.mp hfeeds
    obtain ⟨hl, hlines⟩ := List.forall_mem_cons.mp hfences
    have hopen (r : List Char) : ¬ '\n' :: fence <+: '\n' :: (l ++ '\n' :: r) :=
      fun hp => hl (fence_prefix_line (List.cons_prefix_cons.mp hp).2)
    have hnext := ih l hrest hlines
    simp only [List.flatMap_cons, List.append_assoc, List.cons_append, List.nil_append] at hnext ⊢
    rw [cutAtFence_append hfirst, cutAtFence_cons (hopen _), hnext, List.intercalate_cons_cons]
    simp

end Cut

section Returns

variable {s : List Char}

theorem dropLastWhile_of_not_mem (h : '\r' ∉ s) : Text.dropLastWhile (· = '\r') s = s := by
  have hdrop : s.reverse.dropWhile (· = '\r') = s.reverse := by
    cases hs : s.reverse with
    | nil => rfl
    | cons c r =>
      have hc : ¬ c = '\r' := by
        rintro rfl
        exact h (List.mem_reverse.mp (hs ▸ List.mem_cons_self))
      simp [hc]
  rw [Text.dropLastWhile, hdrop, List.reverse_reverse]

theorem fence_prefix_dropLastWhile (s : List Char) :
    fence <+: Text.dropLastWhile (· = '\r') (fence ++ s) := by
  have hdrop : (fence ++ s).reverse.dropWhile (· = '\r') =
      s.reverse.dropWhile (· = '\r') ++ fence.reverse := by
    rw [List.reverse_append, List.dropWhile_append]
    split_ifs with hempty
    · rw [List.isEmpty_iff.mp hempty]
      rfl
    · rfl
  rw [Text.dropLastWhile, hdrop, List.reverse_append, List.reverse_reverse]
  exact List.prefix_append _ _

theorem not_mem_intercalate {c : Char} (hc : c ≠ '\n') {lines : List (List Char)}
    (h : ∀ l ∈ lines, c ∉ l) : c ∉ ['\n'].intercalate lines := by
  induction lines with
  | nil => simp
  | cons l lines ih =>
    obtain ⟨hl, hrest⟩ := List.forall_mem_cons.mp h
    cases lines with
    | nil => simpa using hl
    | cons l' lines =>
      rw [List.intercalate_cons_cons]
      simp [hl, hc, ih hrest]

end Returns

section Compose

variable {header : List String} {source : String}

theorem toList_compose (header : List String) (source : String) :
    (compose header source).toList =
      fence ++ '\n' :: ((header.map String.toList).flatMap (· ++ ['\n']) ++
        (fence ++ '\n' :: source.toList)) := by
  simp [compose, fence, String.toList_join, List.flatMap_map]

/-- The parts of a file, given how it is cut behind its opening fence. -/
theorem split_of_cut {content : String} {r : List Char} (h : content.toList = fence ++ '\n' :: r) :
    split content = (cutAtFence r).elim (.error .noClosing) fun p =>
      .ok (String.ofList (Text.dropLastWhile (· = '\r') p.1), String.ofList (dropEnding p.2)) := by
  rw [split, h]
  cases hcut : cutAtFence r <;> simp [fence, dropEnding, hcut]

/-- A header of one line or more is found again. -/
theorem split_compose (hne : header ≠ [])
    (hbreaks : ∀ l ∈ header, '\n' ∉ l.toList ∧ '\r' ∉ l.toList)
    (hfences : ∀ l ∈ header, ¬ fence <+: l.toList) :
    split (compose header source) = .ok (String.intercalate "\n" header, source) := by
  obtain ⟨first, lines, rfl⟩ := List.exists_cons_of_ne_nil hne
  have hfeeds : ∀ l ∈ first.toList :: lines.map String.toList, '\n' ∉ l := by
    simpa using fun l hl => (hbreaks l hl).1
  have hreturns : ∀ l ∈ (first :: lines).map String.toList, '\r' ∉ l := by
    simpa using fun l hl => (hbreaks l hl).2
  have hlines : ∀ l ∈ lines.map String.toList, ¬ fence <+: l := by
    simpa using (List.forall_mem_cons.mp hfences).2
  rw [split_of_cut (toList_compose _ source), List.map_cons,
    cutAtFence_lines first.toList _ ('\n' :: source.toList) hfeeds hlines, Option.elim_some,
    ← List.map_cons, dropLastWhile_of_not_mem (not_mem_intercalate (by decide) hreturns)]
  have hjoin : String.ofList (['\n'].intercalate ((first :: lines).map String.toList)) =
      String.intercalate "\n" (first :: lines) := by
    rw [String.ext_iff, String.toList_ofList, String.toList_intercalate]
    rfl
  rw [hjoin, dropEnding, String.ofList_toList]

/-- The closing fence of an empty header is its first line, and another one is looked for. -/
theorem split_compose_nil (source : String) : split (compose [] source) =
    (cutAtFence ('\n' :: source.toList)).elim (.error .noClosing) fun p =>
      .ok (String.ofList (Text.dropLastWhile (· = '\r') (fence ++ p.1)),
        String.ofList (dropEnding p.2)) := by
  have hfence : '\n' ∉ fence := by decide
  rw [split_of_cut (toList_compose [] source), List.map_nil, List.flatMap_nil, List.nil_append,
    cutAtFence_append hfence]
  cases cutAtFence ('\n' :: source.toList) <;> rfl

theorem read_of_split {content header : String} (h : split content = .ok (header, source)) :
    (∀ e, (Toml.read? header).bind Expectation.ofEntries? = some e →
        Case.read content = .ok ⟨e, source⟩) ∧
      ((Toml.read? header).bind Expectation.ofEntries? = none →
        Case.read content = .error .header) := by
  refine ⟨fun e he => ?_, fun he => ?_⟩
  · simp [Case.read, h, he]
  · simp [Case.read, h, he]

theorem read_eq_noClosing_iff (content : String) :
    Case.read content = .error (.fence .noClosing) ↔ split content = .error .noClosing := by
  unfold Case.read
  cases hs : split content with
  | error e => simp
  | ok parts =>
    cases he : (Toml.read? parts.1).bind Expectation.ofEntries? <;> simp [he]

end Compose

/-- A header of lines that start with no fence is found again exactly if it has a line. The closing
fence of an empty one is taken for its first line. -/
theorem read_composed (header : List String) (source : String)
    (hbreaks : ∀ l ∈ header, '\n' ∉ l.toList ∧ '\r' ∉ l.toList)
    (hfences : ∀ l ∈ header, ¬ fence <+: l.toList) :
    (split (compose header source) = .ok (String.intercalate "\n" header, source) ↔ header ≠ []) ∧
      (header ≠ [] →
        (∀ e, (Toml.read? (String.intercalate "\n" header)).bind Expectation.ofEntries? = some e →
          Case.read (compose header source) = .ok ⟨e, source⟩) ∧
        ((Toml.read? (String.intercalate "\n" header)).bind Expectation.ofEntries? = none →
          Case.read (compose header source) = .error .header)) ∧
      (header = [] →
        (Case.read (compose header source) = .error (.fence .noClosing) ↔
          ¬ '\n' :: fence <:+: '\n' :: source.toList) ∧
        ∀ parts, split (compose header source) = .ok parts → fence <+: parts.1.toList) := by
  have hempty : ∀ parts, split (compose [] source) = .ok parts → fence <+: parts.1.toList := by
    intro parts h
    rw [split_compose_nil] at h
    cases hcut : cutAtFence ('\n' :: source.toList) with
    | none => simp [hcut] at h
    | some p =>
      rw [hcut, Option.elim_some, Except.ok.injEq] at h
      rw [← h, String.toList_ofList]
      exact fence_prefix_dropLastWhile p.1
  refine ⟨⟨?_, fun hne => split_compose hne hbreaks hfences⟩, fun hne => ?_, ?_⟩
  · rintro h rfl
    have hfence := hempty _ h
    simp [fence] at hfence
  · exact read_of_split (split_compose hne hbreaks hfences)
  · rintro rfl
    refine ⟨?_, hempty⟩
    rw [read_eq_noClosing_iff, split_compose_nil, ← cutAtFence_eq_none_iff]
    cases cutAtFence ('\n' :: source.toList) <;> simp

/-- The source may have fences of its own. -/
theorem read_composed_fenced :
    split (compose ["expect_load_error = true"] "---\n---") =
        .ok ("expect_load_error = true", "---\n---") ∧
      Case.read (compose ["expect_load_error = true"] "---\n---") =
        .ok ⟨{ loadError := true }, "---\n---"⟩ := by
  have hparts := read_composed ["expect_load_error = true"] "---\n---" (by decide) (by decide)
  exact ⟨hparts.1.mpr (by simp), (hparts.2.1 (by simp)).1 _ (by decide +kernel)⟩

/-- A header may be empty, and yet a file with an empty one has no closing fence. -/
theorem empty_header_lost :
    (Toml.read? (String.intercalate "\n" [])).bind Expectation.ofEntries? = some {} ∧
      compose [] "\x7b\x7d" = "---\n---\n\x7b\x7d" ∧
      Case.read (compose [] "\x7b\x7d") = .error (.fence .noClosing) := by
  refine ⟨by decide +kernel, by decide +kernel, ?_⟩
  rw [read_eq_noClosing_iff, split_compose_nil]
  rfl

end BlockSketch.Case
