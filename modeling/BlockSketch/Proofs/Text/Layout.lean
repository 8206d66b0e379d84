import BlockSketch.Proofs.Text.Margins
import BlockSketch.Proofs.Text.Tidying
import BlockSketch.Text.Part

namespace BlockSketch.Text

/-- How many braces are open after a text if `d` are before it. There is no answer if the text closes one
that is not open. -/
def braceDepth : Nat → List Char → Option Nat
  | d, [] => some d
  | d, c :: r =>
    if c = '\x7b' then braceDepth (d + 1) r
    else if c = '\x7d' then
      match d with
      | 0 => none
      | d + 1 => braceDepth d r
    else braceDepth d r

/-- A line with `d` braces open before it. Its margin is two spaces for each of them, for one less if it
starts with the brace that closes one. -/
structure LineAt (d : Nat) (line : List Char) : Prop where
  margin : ∃ c r, isBlank c = false ∧
    line = List.replicate (2 * if c = '\x7d' then d - 1 else d) ' ' ++ c :: r
  ending : ∀ c, line.getLast? = some c → isBlank c = false

/-- The braces of a text match, each of its lines that is not empty stands where the braces say, and no
blank comes first. -/
structure LaidOut (text : List Char) : Prop where
  balanced : braceDepth 0 text = some 0
  lines : ∀ before line after, splitAtEach '\n' text = before ++ line :: after → line ≠ [] →
    ∃ d, braceDepth 0 before.flatten = some d ∧ LineAt d line
  start : ∀ c, text.head? = some c → isBlank c = false

theorem braceDepth_append (d : Nat) (s s' : List Char) :
    braceDepth d (s ++ s') = (braceDepth d s).bind fun e => braceDepth e s' := by
  induction s generalizing d with
  | nil => rfl
  | cons c r ih =>
    simp only [List.cons_append, braceDepth]
    split_ifs
    · exact ih (d + 1)
    · cases d with
      | zero => rfl
      | succ d => exact ih d
    · exact ih d

/-- With one more brace open before a text there is one more after it. -/
theorem braceDepth_succ {d e : Nat} {s : List Char} (h : braceDepth d s = some e) :
    braceDepth (d + 1) s = some (e + 1) := by
  induction s generalizing d with
  | nil => simpa [braceDepth] using h
  | cons c r ih =>
    unfold braceDepth at h ⊢
    split_ifs at h ⊢
    · exact ih h
    · cases d with
      | zero => simp at h
      | succ d => exact ih h
    · exact ih h

theorem braceDepth_of_no_brace {s : List Char} (h : ∀ c ∈ s, c ≠ '\x7b' ∧ c ≠ '\x7d') (d : Nat) :
    braceDepth d s = some d := by
  induction s with
  | nil => rfl
  | cons c r ih =>
    obtain ⟨hc, hr⟩ := List.forall_mem_cons.mp h
    unfold braceDepth
    rw [if_neg hc.1, if_neg hc.2]
    exact ih hr

section Split

theorem splitAtEach_ne_nil (sep : Char) (s : List Char) : splitAtEach sep s ≠ [] := by
  cases s with
  | nil => simp [splitAtEach]
  | cons c r =>
    unfold splitAtEach
    split_ifs
    · simp
    · split <;> simp

theorem splitAtEach_of_not_mem {sep : Char} {s : List Char} (h : sep ∉ s) :
    splitAtEach sep s = [s] := by
  induction s with
  | nil => rfl
  | cons c r ih =>
    rw [List.mem_cons, not_or] at h
    rw [splitAtEach, if_neg (Ne.symm h.1), ih h.2]

theorem splitAtEach_append_sep (sep : Char) (s s' : List Char) :
    splitAtEach sep (s ++ sep :: s') = splitAtEach sep s ++ splitAtEach sep s' := by
  induction s with
  | nil => simp [splitAtEach]
  | cons c r ih =>
    simp only [List.cons_append, splitAtEach, ih]
    split_ifs
    · rfl
    · cases h : splitAtEach sep r with
      | nil => exact absurd h (splitAtEach_ne_nil sep r)
      | cons p ps => rfl

/-- The braces of a text are those of its lines. -/
theorem braceDepth_flatten_splitAtEach (d : Nat) (s : List Char) :
    braceDepth d (splitAtEach '\n' s).flatten = braceDepth d s := by
  induction s generalizing d with
  | nil => rfl
  | cons c r ih =>
    unfold splitAtEach
    split_ifs with hc
    · subst hc
      exact ih d
    · cases h : splitAtEach '\n' r with
      | nil => exact absurd h (splitAtEach_ne_nil '\n' r)
      | cons p ps =>
        rw [h] at ih
        simp only [List.flatten_cons, List.cons_append] at ih ⊢
        cases d with
        | zero => simp only [braceDepth, ih]
        | succ d => simp only [braceDepth, ih]

theorem mem_of_mem_splitAtEach {sep c : Char} {s line : List Char} (hl : line ∈ splitAtEach sep s)
    (hc : c ∈ line) : c ∈ s := by
  induction s generalizing line with
  | nil =>
    simp only [splitAtEach, List.mem_singleton] at hl
    exact hl ▸ hc
  | cons x r ih =>
    unfold splitAtEach at hl
    split_ifs at hl
    · rcases List.mem_cons.mp hl with rfl | hl
      · simp at hc
      · exact List.mem_cons_of_mem x (ih hl hc)
    · cases h : splitAtEach sep r with
      | nil => exact absurd h (splitAtEach_ne_nil sep r)
      | cons p ps =>
        simp only [h, List.mem_cons] at hl ih
        rcases hl with rfl | hl
        · rcases List.mem_cons.mp hc with rfl | hc
          · exact List.mem_cons_self
          · exact List.mem_cons_of_mem x (ih (.inl rfl) hc)
        · exact List.mem_cons_of_mem x (ih (.inr hl) hc)

end Split

/-- A line with `d` braces open before it and `e` after it. -/
structure Row (d : Nat) (line : List Char) (e : Nat) : Prop extends LineAt d line where
  depth : braceDepth d line = some e
  feed : '\n' ∉ line

namespace Row

variable {d e : Nat} {line : List Char}

theorem ne_nil (h : Row d line e) : line ≠ [] := by
  obtain ⟨c, r, -, hl⟩ := h.margin
  simp [hl]

theorem indent (h : Row d line e) : Row (d + 1) (' ' :: ' ' :: line) (e + 1) := by
  refine ⟨⟨?_, ?_⟩, ?_, ?_⟩
  · obtain ⟨c, r, hc, hl⟩ := h.margin
    refine ⟨c, r, hc, ?_⟩
    have hdepth := h.depth
    split_ifs at hl ⊢ with hb
    · -- A line that closes a brace has one open before it.
      cases d with
      | zero => simp [hl, hb, braceDepth] at hdepth
      | succ d =>
        rw [hl]
        rfl
    · rw [hl]
      rfl
  · intro c hc
    obtain ⟨x, r, hx⟩ := List.exists_cons_of_ne_nil h.ne_nil
    refine h.ending c ?_
    simpa [hx] using hc
  · exact braceDepth_succ h.depth
  · simpa using h.feed

end Row

/-- Lines one after another, none of them empty. -/
inductive Rows : Nat → List (List Char) → Nat → Prop where
  | nil (d : Nat) : Rows d [] d
  | cons {d m e : Nat} {line : List Char} {lines : List (List Char)} (h : Row d line m)
    (hs : Rows m lines e) : Rows d (line :: lines) e

namespace Rows

variable {d m e : Nat} {lines lines' : List (List Char)}

theorem single {line : List Char} (h : Row d line e) : Rows d [line] e := .cons h (.nil e)

theorem append (h : Rows d lines m) (h' : Rows m lines' e) : Rows d (lines ++ lines') e := by
  induction h with
  | nil => exact h'
  | cons hrow _ ih => exact .cons hrow (ih h')

theorem of_append (h : Rows d (lines ++ lines') e) : ∃ m, Rows d lines m ∧ Rows m lines' e := by
  induction lines generalizing d with
  | nil => exact ⟨d, .nil d, h⟩
  | cons line lines ih =>
    cases h with
    | cons hrow hs =>
      obtain ⟨m, hfirst, hsecond⟩ := ih hs
      exact ⟨m, .cons hrow hfirst, hsecond⟩

theorem depth (h : Rows d lines e) : braceDepth d lines.flatten = some e := by
  induction h with
  | nil => rfl
  | cons hrow _ ih => rw [List.flatten_cons, braceDepth_append, hrow.depth, Option.bind_some, ih]

theorem cutAfter_eq (h : Rows d lines e) :
    cutAfter '\n' (lines.flatMap (· ++ ['\n'])) = lines.map (· ++ ['\n']) := by
  induction h with
  | nil => rfl
  | cons hrow _ ih =>
    rw [List.flatMap_cons, List.append_assoc, List.singleton_append, cutAfter_append_sep hrow.feed, ih]
    rfl

theorem row (h : Rows d lines e) {line : List Char} (hl : line ∈ lines) : ∃ m m', Row m line m' := by
  induction h with
  | nil => simp at hl
  | cons hrow _ ih =>
    rcases List.mem_cons.mp hl with rfl | hl
    · exact ⟨_, _, hrow⟩
    · exact ih hl

theorem indent (h : Rows d lines e) :
    Rows (d + 1) (lines.map fun line => ' ' :: ' ' :: line) (e + 1) := by
  induction h with
  | nil => exact .nil _
  | cons hrow _ ih => exact .cons hrow.indent ih

end Rows

/-- A text of whole lines with `d` braces open before and after it. -/
def Stack (d : Nat) (s : List Char) : Prop :=
  ∃ lines, Rows d lines d ∧ s = lines.flatMap (· ++ ['\n'])

namespace Stack

variable {d : Nat} {s s' : List Char}

theorem nil (d : Nat) : Stack d [] := ⟨[], .nil d, rfl⟩

theorem line {line : List Char} (h : Row d line d) : Stack d (line ++ ['\n']) :=
  ⟨[line], .single h, by simp⟩

theorem append (h : Stack d s) (h' : Stack d s') : Stack d (s ++ s') := by
  obtain ⟨lines, hrows, rfl⟩ := h
  obtain ⟨lines', hrows', rfl⟩ := h'
  exact ⟨lines ++ lines', hrows.append hrows', by simp⟩

theorem indent (h : Stack d s) :
    Stack (d + 1) ((cutAfter '\n' s).flatMap fun piece => ' ' :: ' ' :: piece) := by
  obtain ⟨lines, hrows, rfl⟩ := h
  refine ⟨_, hrows.indent, ?_⟩
  rw [hrows.cutAfter_eq, List.flatMap_map, List.flatMap_map]
  rfl

theorem braced {head : List Char} (hh : Row 0 head 1) (hs : Stack 1 s) :
    Stack 0 (head ++ '\n' :: (s ++ ['\x7d', '\n'])) := by
  obtain ⟨lines, hrows, rfl⟩ := hs
  have hclose : Row 1 ['\x7d'] 0 :=
    ⟨⟨⟨'\x7d', [], by decide, rfl⟩, by simp; decide⟩, rfl, by decide⟩
  exact ⟨_, .cons hh (hrows.append (.single hclose)), by simp⟩

end Stack

/-- The lines of a text that are not empty. -/
def rows (s : List Char) : List (List Char) := (splitAtEach '\n' s).filter (· ≠ [])

theorem rows_append_feed (s s' : List Char) : rows (s ++ '\n' :: s') = rows s ++ rows s' := by
  rw [rows, splitAtEach_append_sep, List.filter_append]
  rfl

theorem rows_of_not_mem {s : List Char} (h : '\n' ∉ s) (hn : s ≠ []) : rows s = [s] := by
  rw [rows, splitAtEach_of_not_mem h]
  simp [hn]

/-- Where all braces are closed before a text, its lines stand where they have to. -/
def Laid (s : List Char) : Prop := Rows 0 (rows s) 0

theorem Laid.nil : Laid [] := Rows.nil 0

theorem Laid.feed {s s' : List Char} (h : Laid s) (h' : Laid s') : Laid (s ++ '\n' :: s') := by
  unfold Laid
  rw [rows_append_feed]
  exact Rows.append h h'

theorem Laid.line {s : List Char} (h : Row 0 s 0) : Laid s := by
  unfold Laid
  rw [rows_of_not_mem h.feed h.ne_nil]
  exact .single h

theorem rows_flatMap {d e : Nat} {lines : List (List Char)} (h : Rows d lines e) :
    rows (lines.flatMap (· ++ ['\n'])) = lines := by
  induction h with
  | nil => rfl
  | cons hrow _ ih =>
    rw [List.flatMap_cons, List.append_assoc, List.singleton_append, rows_append_feed, ih,
      rows_of_not_mem hrow.feed hrow.ne_nil]
    rfl

theorem Stack.laid {s : List Char} (h : Stack 0 s) : Laid s := by
  obtain ⟨lines, hrows, rfl⟩ := h
  unfold Laid
  rwa [rows_flatMap hrows]

/-- Whole lines start with no blank where no brace is open. -/
theorem Stack.start {s : List Char} (h : Stack 0 s) : ∀ c, s.head? = some c → isBlank c = false := by
  obtain ⟨lines, hrows, rfl⟩ := h
  intro c hc
  cases hrows with
  | nil => simp at hc
  | cons hrow _ =>
    obtain ⟨x, r, hx, hline⟩ := hrow.margin
    have hmargin : (2 * if x = '\x7d' then 0 - 1 else 0) = 0 := by split_ifs <;> rfl
    rw [hmargin] at hline
    have hxc : x = c := by simpa [hline] using hc
    exact hxc ▸ hx

theorem Laid.intercalate {texts : List (List Char)} (h : ∀ s ∈ texts, Laid s) :
    Laid (['\n'].intercalate texts) := by
  induction texts with
  | nil => exact .nil
  | cons s texts ih =>
    cases texts with
    | nil => simpa using h
    | cons s' texts =>
      obtain ⟨hs, hrest⟩ := List.forall_mem_cons.mp h
      rw [List.intercalate_cons_cons, List.append_assoc, List.singleton_append]
      exact hs.feed (ih hrest)

theorem head?_intercalate {s : List Char} (hne : s ≠ []) (texts : List (List Char)) :
    (['\n'].intercalate (s :: texts)).head? = s.head? := by
  obtain ⟨c, r, rfl⟩ := List.exists_cons_of_ne_nil hne
  cases texts with
  | nil => simp
  | cons s' texts => simp [List.intercalate_cons_cons]

theorem flatten_filter_ne_nil (lines : List (List Char)) :
    (lines.filter (· ≠ [])).flatten = lines.flatten := by
  induction lines with
  | nil => rfl
  | cons line lines ih =>
    by_cases h : line = []
    · simpa [h] using ih
    · simpa [h] using ih

theorem Laid.laidOut {s : List Char} (h : Laid s) (hs : ∀ c, s.head? = some c → isBlank c = false) :
    LaidOut s := by
  refine ⟨?_, ?_, hs⟩
  · have hdepth := h.depth
    rwa [rows, flatten_filter_ne_nil, braceDepth_flatten_splitAtEach] at hdepth
  · intro before line after hsplit hne
    unfold Laid rows at h
    rw [hsplit, List.filter_append, List.filter_cons_of_pos (by simpa using hne)] at h
    obtain ⟨d, hbefore, hrest⟩ := h.of_append
    refine ⟨d, ?_, ?_⟩
    · have hdepth := hbefore.depth
      rwa [flatten_filter_ne_nil] at hdepth
    · cases hrest with
      | cons hrow _ => exact hrow.toLineAt

section Tidy

theorem dropLeadingBlankLines_of_ink {s : List Char} (h : ∀ c, s.head? = some c → isBlank c = false) :
    dropLeadingBlankLines s = s := by
  cases s with
  | nil => rfl
  | cons c r =>
    have hc := h c rfl
    simp [dropLeadingBlankLines, hc]

/-- Blanks at the end of a text have no lines. -/
theorem Laid.of_blanks {s s' : List Char} (h : Laid (s ++ '\n' :: s')) (hb : ∀ c ∈ s', isBlank c = true) :
    Laid s := by
  unfold Laid at h
  rw [rows_append_feed] at h
  obtain ⟨d, hfirst, hsecond⟩ := h.of_append
  have hnone : rows s' = [] := by
    refine List.eq_nil_iff_forall_not_mem.mpr fun line hl => ?_
    obtain ⟨m, m', hrow⟩ := hsecond.row hl
    obtain ⟨c, r, hc, hline⟩ := hrow.margin
    have hmem : c ∈ s' := mem_of_mem_splitAtEach (List.mem_filter.mp hl).1 (by simp [hline])
    rw [hb c hmem] at hc
    cases hc
  rw [hnone] at hsecond
  cases hsecond
  exact hfirst

theorem exists_line_ending {a b : List Char} {c : Char} (hc : c ≠ '\n') :
    ∃ line ∈ splitAtEach '\n' (a ++ c :: '\n' :: b), line.getLast? = some c := by
  have hend {x : List Char} (hx : '\n' ∉ x) : splitAtEach '\n' (x ++ [c]) = [x ++ [c]] := by
    apply splitAtEach_of_not_mem
    simp [hx, hc.symm]
  by_cases ha : '\n' ∈ a
  · obtain ⟨x, y, rfl, hy⟩ := exists_last_feed ha
    have hsplit : (x ++ '\n' :: y) ++ c :: '\n' :: b = x ++ '\n' :: ((y ++ [c]) ++ '\n' :: b) := by
      simp
    rw [hsplit, splitAtEach_append_sep, splitAtEach_append_sep, hend hy]
    exact ⟨y ++ [c], by simp, by simp⟩
  · have hsplit : a ++ c :: '\n' :: b = (a ++ [c]) ++ '\n' :: b := by simp
    rw [hsplit, splitAtEach_append_sep, hend ha]
    exact ⟨a ++ [c], by simp, by simp⟩

theorem Laid.dropLineEndBlanks_eq {s : List Char} (h : Laid s) : dropLineEndBlanks s = s := by
  apply dropLineEndBlanks_of_tidy
  rintro a c b rfl
  by_contra hblank
  rw [Bool.not_eq_false] at hblank
  have hc : c ≠ '\n' := by
    rintro rfl
    simp [isSpaceOrTab] at hblank
  obtain ⟨line, hl, hlast⟩ := exists_line_ending (a := a) (b := b) hc
  have hne : line ≠ [] := List.ne_nil_of_mem (List.mem_of_getLast? hlast)
  obtain ⟨d, e, hrow⟩ := h.row (List.mem_filter.mpr ⟨hl, by simpa using hne⟩)
  have hink := hrow.ending c hlast
  rw [isBlank_of_isSpaceOrTab hblank] at hink
  cases hink

/-- A text that is laid out, and starts with no blank, is laid out after tidying as well. -/
theorem Laid.tidyChars {s : List Char} (h : Laid s) (hs : ∀ c, s.head? = some c → isBlank c = false) :
    Laid (tidyChars s) ∧ ∀ c, (Text.tidyChars s).head? = some c → isBlank c = false := by
  unfold Text.tidyChars
  rw [dropLeadingBlankLines_of_ink hs]
  rcases dropTrailingBlankLines_cases s with ⟨ht, -⟩ | ⟨a, b, rfl, hb, ht, -⟩
  · rw [ht, h.dropLineEndBlanks_eq]
    exact ⟨h, hs⟩
  · have hcut : Laid (a ++ ['\n']) := (h.of_blanks hb).feed .nil
    rw [ht, hcut.dropLineEndBlanks_eq]
    refine ⟨hcut, fun c hc => hs c ?_⟩
    cases a with
    | nil => exact hc
    | cons x r => exact hc

end Tidy

end BlockSketch.Text
