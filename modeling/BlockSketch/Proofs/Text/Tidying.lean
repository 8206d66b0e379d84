import BlockSketch.Text.Tidy
import Mathlib.Data.List.TakeWhile
import Mathlib.Tactic.SplitIfs

namespace BlockSketch.Text

def AllBlank (s : List Char) : Prop := ∀ c ∈ s, isBlank c = true

theorem allBlank_takeWhile (s : List Char) : AllBlank (s.takeWhile isBlank) :=
  fun _ hc => List.mem_takeWhile_imp hc

theorem allBlank_takeLastWhile (s : List Char) : AllBlank (takeLastWhile isBlank s) :=
  fun _ hc => List.mem_takeWhile_imp (List.mem_reverse.mp hc)

/-- The second text is the first one without some of its blanks. -/
inductive Thins : List Char → List Char → Prop where
  | nil : Thins [] []
  | keep {s t : List Char} (c : Char) (h : Thins s t) : Thins (c :: s) (c :: t)
  | drop {s t : List Char} {c : Char} (hc : isBlank c = true) (h : Thins s t) : Thins (c :: s) t

namespace Thins

variable {s t u v : List Char}

theorem refl : ∀ s : List Char, Thins s s
  | [] => .nil
  | c :: r => .keep c (refl r)

theorem trans (h : Thins s t) (h' : Thins t u) : Thins s u := by
  induction h generalizing u with
  | nil => exact h'
  | keep c _ ih =>
    cases h' with
    | keep _ h' => exact .keep c (ih h')
    | drop hc h' => exact .drop hc (ih h')
  | drop hc _ ih => exact .drop hc (ih h')

theorem append (h : Thins s t) (h' : Thins u v) : Thins (s ++ u) (t ++ v) := by
  induction h with
  | nil => exact h'
  | keep c _ ih => exact .keep c ih
  | drop hc _ ih => exact .drop hc ih

theorem of_allBlank (h : AllBlank s) : Thins s [] := by
  induction s with
  | nil => exact .nil
  | cons c r ih =>
    obtain ⟨hc, hr⟩ := List.forall_mem_cons.mp h
    exact .drop hc (ih hr)

theorem sublist (h : Thins s t) : t.Sublist s := by
  induction h with
  | nil => exact .slnil
  | keep c _ ih => exact ih.cons_cons c
  | drop _ _ ih => exact ih.cons _

theorem filter_eq (h : Thins s t) : t.filter (!isBlank ·) = s.filter (!isBlank ·) := by
  induction h with
  | nil => rfl
  | keep c _ ih => simp only [List.filter_cons, ih]
  | drop hc _ ih => simpa [hc] using ih

theorem allBlank (h : Thins s t) (ht : AllBlank t) : AllBlank s := by
  induction h with
  | nil => exact ht
  | keep c _ ih =>
    obtain ⟨hc, hr⟩ := List.forall_mem_cons.mp ht
    exact List.forall_mem_cons.mpr ⟨hc, ih hr⟩
  | drop hc _ ih => exact List.forall_mem_cons.mpr ⟨hc, ih ht⟩

/-- A character that is left was there before, between what became of the text around it. -/
theorem split {a b : List Char} {x : Char} (h : Thins s (a ++ x :: b)) :
    ∃ a' b', s = a' ++ x :: b' ∧ Thins a' a ∧ Thins b' b := by
  generalize hl : a ++ x :: b = l at h
  induction h generalizing a with
  | nil => simp at hl
  | @keep r l' c h ih =>
    cases a with
    | nil =>
      rw [List.nil_append, List.cons.injEq] at hl
      obtain ⟨rfl, rfl⟩ := hl
      exact ⟨[], r, rfl, .nil, h⟩
    | cons y a =>
      rw [List.cons_append, List.cons.injEq] at hl
      obtain ⟨rfl, hl⟩ := hl
      obtain ⟨a', b', rfl, ha, hb⟩ := ih hl
      exact ⟨y :: a', b', rfl, .keep y ha, hb⟩
  | @drop r l' c hc h ih =>
    obtain ⟨a', b', rfl, ha, hb⟩ := ih hl
    exact ⟨c :: a', b', rfl, .drop hc ha, hb⟩

theorem eq_nil (h : Thins [] t) : t = [] := by
  cases h
  rfl

end Thins

/-- No line feed stands behind blanks alone, unless it is the first character. -/
def StartsTidy (s : List Char) : Prop := ∀ a b, s = a ++ '\n' :: b → AllBlank a → a = []

/-- No line feed stands before blanks alone, unless it is the last character. -/
def EndsTidy (s : List Char) : Prop := ∀ a b, s = a ++ '\n' :: b → AllBlank b → b = []

/-- No space or tab stands right before a line feed. -/
def LinesTidy (s : List Char) : Prop := ∀ a c b, s = a ++ c :: '\n' :: b → isSpaceOrTab c = false

structure Tidied (s : List Char) : Prop where
  start : StartsTidy s
  ending : EndsTidy s
  lines : LinesTidy s

section Thinning

variable {s t : List Char}

theorem StartsTidy.thins (hs : StartsTidy s) (h : Thins s t) : StartsTidy t := by
  rintro a b rfl ha
  obtain ⟨a', b', rfl, ha', -⟩ := h.split
  obtain rfl := hs a' b' rfl (ha'.allBlank ha)
  exact ha'.eq_nil

theorem EndsTidy.thins (hs : EndsTidy s) (h : Thins s t) : EndsTidy t := by
  rintro a b rfl hb
  obtain ⟨a', b', rfl, -, hb'⟩ := h.split
  obtain rfl := hs a' b' rfl (hb'.allBlank hb)
  exact hb'.eq_nil

/-- Where a text ends tidily, a line feed among its final blanks is the last character and has no other
before it. -/
theorem EndsTidy.feed_last (hs : EndsTidy s) {a b : List Char}
    (h : takeLastWhile isBlank s = a ++ '\n' :: b) : '\n' ∉ a ∧ b = [] := by
  have hwhole := dropLastWhile_append_takeLastWhile isBlank s
  have hblank : AllBlank (a ++ '\n' :: b) := h ▸ allBlank_takeLastWhile s
  rw [h] at hwhole
  constructor
  · intro hfeed
    obtain ⟨u, v, rfl⟩ := List.append_of_mem hfeed
    have hrest : AllBlank (v ++ '\n' :: b) := by
      intro c hc
      apply hblank c
      rw [List.append_assoc]
      exact List.mem_append_right u (List.mem_cons_of_mem _ hc)
    have hnil := hs (dropLastWhile isBlank s ++ u) _ (by simpa using hwhole.symm) hrest
    simp at hnil
  · exact hs (dropLastWhile isBlank s ++ a) b (by simpa using hwhole.symm) fun c hc =>
      hblank c (by simp [hc])

end Thinning

section Runs

variable {s a b : List Char}

theorem takeWhile_append_feed (h : AllBlank a) (b : List Char) :
    (a ++ '\n' :: b).takeWhile isBlank = a ++ '\n' :: b.takeWhile isBlank := by
  rw [List.takeWhile_append_of_pos h, List.takeWhile_cons_of_pos isBlank_newline]

/-- A line feed is among the first blanks exactly if only blanks are before it. -/
theorem mem_takeWhile_iff :
    '\n' ∈ s.takeWhile isBlank ↔ ∃ a b, s = a ++ '\n' :: b ∧ AllBlank a := by
  constructor
  · intro h
    obtain ⟨a, b, hab⟩ := List.append_of_mem h
    refine ⟨a, b ++ s.dropWhile isBlank, ?_, fun c hc => ?_⟩
    · have hs := List.takeWhile_append_dropWhile (p := isBlank) (l := s)
      rw [hab] at hs
      simpa using hs.symm
    · exact allBlank_takeWhile s c (by simp [hab, hc])
  · rintro ⟨a, b, rfl, ha⟩
    rw [takeWhile_append_feed ha]
    simp

theorem mem_takeLastWhile_iff :
    '\n' ∈ takeLastWhile isBlank s ↔ ∃ a b, s = a ++ '\n' :: b ∧ AllBlank b := by
  rw [takeLastWhile, List.mem_reverse, mem_takeWhile_iff]
  constructor
  · rintro ⟨b, a, hs, hb⟩
    refine ⟨a.reverse, b.reverse, ?_, fun c hc => hb c (List.mem_reverse.mp hc)⟩
    simpa using congrArg List.reverse hs
  · rintro ⟨a, b, rfl, hb⟩
    exact ⟨b.reverse, a.reverse, by simp, fun c hc => hb c (List.mem_reverse.mp hc)⟩

/-- Blanks in front of what is left without the first blanks are the first blanks. -/
theorem takeWhile_append_dropWhile (h : AllBlank a) (s : List Char) :
    (a ++ s.dropWhile isBlank).takeWhile isBlank = a := by
  rw [List.takeWhile_append_of_pos h]
  cases hd : s.dropWhile isBlank with
  | nil => simp
  | cons c r =>
    have hc : ¬ isBlank c = true := by
      have hhead := List.head_dropWhile_not isBlank (l := s) (by simp [hd])
      simpa [hd] using hhead
    simp [hc]

theorem takeLastWhile_dropLastWhile_append (h : AllBlank a) (s : List Char) :
    takeLastWhile isBlank (dropLastWhile isBlank s ++ a) = a := by
  have ha : AllBlank a.reverse := fun c hc => h c (List.mem_reverse.mp hc)
  have htake := takeWhile_append_dropWhile ha s.reverse
  simp [takeLastWhile, dropLastWhile, htake]

theorem takeWhile_to_feed (h : '\n' ∉ a) (b : List Char) :
    (a ++ '\n' :: b).takeWhile (· ≠ '\n') = a := by
  rw [List.takeWhile_append_of_pos]
  · simp
  · intro c hc
    have hne : c ≠ '\n' := fun he => h (he ▸ hc)
    simpa using hne

theorem takeLastWhile_from_feed (h : '\n' ∉ b) (a : List Char) :
    takeLastWhile (· ≠ '\n') (a ++ '\n' :: b) = b := by
  have htake := takeWhile_to_feed (a := b.reverse) (by simpa using h) a.reverse
  rw [takeLastWhile]
  simpa using congrArg List.reverse htake

theorem exists_last_feed (h : '\n' ∈ s) : ∃ a b, s = a ++ '\n' :: b ∧ '\n' ∉ b := by
  obtain ⟨b, a, hs, hb⟩ := List.eq_append_cons_of_mem (List.mem_reverse.mpr h)
  refine ⟨a.reverse, b.reverse, ?_, by simpa using hb⟩
  simpa using congrArg List.reverse hs

end Runs

/-- The first blanks are cut behind their last line feed, unless this is the first character or there is
none. -/
theorem dropLeadingBlankLines_cases (s : List Char) :
    (dropLeadingBlankLines s = s ∧ StartsTidy s) ∨
      ∃ a b, s = a ++ '\n' :: b ∧ AllBlank a ∧ a ≠ [] ∧ dropLeadingBlankLines s = b ∧
        '\n' ∉ b.takeWhile isBlank := by
  have hs := List.takeWhile_append_dropWhile (p := isBlank) (l := s)
  have hblank := allBlank_takeWhile s
  by_cases hn : '\n' ∈ (s.takeWhile isBlank).tail
  · right
    obtain ⟨first, last, hlast, hnot⟩ := exists_last_feed (List.mem_of_mem_tail hn)
    have hdrop : dropLeadingBlankLines s = last ++ s.dropWhile isBlank := by
      unfold dropLeadingBlankLines
      rw [if_pos hn, hlast, takeLastWhile_from_feed hnot]
    refine ⟨first, last ++ s.dropWhile isBlank, ?_, ?_, ?_, hdrop, ?_⟩
    · rw [hlast] at hs
      simpa using hs.symm
    · exact fun c hc => hblank c (by simp [hlast, hc])
    · rintro rfl
      rw [hlast] at hn
      exact hnot hn
    · have hbehind : AllBlank last := fun c hc => hblank c (by simp [hlast, hc])
      rw [takeWhile_append_dropWhile hbehind]
      exact hnot
  · left
    refine ⟨if_neg hn, ?_⟩
    rintro a b rfl ha
    cases a with
    | nil => rfl
    | cons c a =>
      rw [takeWhile_append_feed ha] at hn
      simp at hn

/-- The final blanks are cut behind their first line feed. -/
theorem dropTrailingBlankLines_cases (s : List Char) :
    (dropTrailingBlankLines s = s ∧ '\n' ∉ takeLastWhile isBlank s) ∨
      ∃ a b, s = a ++ '\n' :: b ∧ AllBlank b ∧ dropTrailingBlankLines s = a ++ ['\n'] ∧
        '\n' ∉ takeLastWhile isBlank a := by
  have hs := dropLastWhile_append_takeLastWhile isBlank s
  have hblank := allBlank_takeLastWhile s
  by_cases hn : '\n' ∈ takeLastWhile isBlank s
  · right
    obtain ⟨first, rest, hfirst, hnot⟩ := List.eq_append_cons_of_mem hn
    have hdrop : dropTrailingBlankLines s = dropLastWhile isBlank s ++ first ++ ['\n'] := by
      unfold dropTrailingBlankLines
      rw [if_pos hn, hfirst, takeWhile_to_feed hnot]
    refine ⟨dropLastWhile isBlank s ++ first, rest, ?_, ?_, hdrop, ?_⟩
    · rw [hfirst] at hs
      simpa using hs.symm
    · exact fun c hc => hblank c (by simp [hfirst, hc])
    · have hbefore : AllBlank first := fun c hc => hblank c (by simp [hfirst, hc])
      rw [takeLastWhile_dropLastWhile_append hbefore]
      exact hnot
  · left
    exact ⟨if_neg hn, hn⟩

section Passes

theorem startsTidy_dropLeadingBlankLines (s : List Char) :
    StartsTidy (dropLeadingBlankLines s) := by
  rcases dropLeadingBlankLines_cases s with ⟨hs, htidy⟩ | ⟨a, b, -, -, -, hs, hnone⟩
  · rw [hs]
    exact htidy
  · rw [hs]
    rintro x y rfl hx
    exact absurd (mem_takeWhile_iff.mpr ⟨x, y, rfl, hx⟩) hnone

theorem endsTidy_dropTrailingBlankLines (s : List Char) :
    EndsTidy (dropTrailingBlankLines s) := by
  rcases dropTrailingBlankLines_cases s with ⟨hs, hnone⟩ | ⟨a, b, -, -, hs, hnone⟩
  · rw [hs]
    rintro x y rfl hy
    exact absurd (mem_takeLastWhile_iff.mpr ⟨x, y, rfl, hy⟩) hnone
  · rw [hs]
    intro x y hxy hy
    rcases List.eq_nil_or_concat y with rfl | ⟨y, c, rfl⟩
    · rfl
    -- Another line feed before the last one would have been the place of the cut.
    · rw [List.concat_eq_append, ← List.cons_append, ← List.append_assoc] at hxy
      obtain ⟨rfl, -⟩ := List.append_inj' hxy rfl
      have hy' : AllBlank y := fun d hd => hy d (by simp [hd])
      exact absurd (mem_takeLastWhile_iff.mpr ⟨x, y, rfl, hy'⟩) hnone

theorem dropLineEndBlanks_cons (c : Char) (r : List Char) :
    dropLineEndBlanks (c :: r) =
      if isSpaceOrTab c && (dropLineEndBlanks r).head? == some '\n' then dropLineEndBlanks r
      else c :: dropLineEndBlanks r :=
  rfl

theorem linesTidy_dropLineEndBlanks (s : List Char) : LinesTidy (dropLineEndBlanks s) := by
  induction s with
  | nil =>
    intro a c b hab
    simp [dropLineEndBlanks] at hab
  | cons x r ih =>
    rw [dropLineEndBlanks_cons]
    split_ifs with hx
    · exact ih
    · intro a c b hab
      cases a with
      | nil =>
        rw [List.nil_append, List.cons.injEq] at hab
        obtain ⟨rfl, hr⟩ := hab
        simpa [hr] using hx
      | cons y a =>
        rw [List.cons_append, List.cons.injEq] at hab
        exact ih a c b hab.2

theorem isBlank_of_isSpaceOrTab {c : Char} (h : isSpaceOrTab c = true) : isBlank c = true := by
  simp only [isSpaceOrTab, Bool.or_eq_true, beq_iff_eq] at h
  rcases h with rfl | rfl
  · exact isBlank_space
  · exact isBlank_tab

theorem thins_dropLeadingBlankLines (s : List Char) : Thins s (dropLeadingBlankLines s) := by
  rcases dropLeadingBlankLines_cases s with ⟨hs, -⟩ | ⟨a, b, rfl, ha, -, hs, -⟩
  · rw [hs]
    exact .refl s
  · rw [hs]
    exact (Thins.of_allBlank ha).append (.drop isBlank_newline (.refl b))

theorem thins_dropTrailingBlankLines (s : List Char) : Thins s (dropTrailingBlankLines s) := by
  rcases dropTrailingBlankLines_cases s with ⟨hs, -⟩ | ⟨a, b, rfl, hb, hs, -⟩
  · rw [hs]
    exact .refl s
  · rw [hs]
    exact (Thins.refl a).append (.keep '\n' (.of_allBlank hb))

theorem thins_dropLineEndBlanks (s : List Char) : Thins s (dropLineEndBlanks s) := by
  induction s with
  | nil => exact .nil
  | cons c r ih =>
    rw [dropLineEndBlanks_cons]
    split_ifs with hc
    · exact .drop (isBlank_of_isSpaceOrTab (Bool.and_eq_true_iff.mp hc).1) ih
    · exact .keep c ih

theorem dropLeadingBlankLines_of_tidy {s : List Char} (h : StartsTidy s) :
    dropLeadingBlankLines s = s := by
  rcases dropLeadingBlankLines_cases s with ⟨hs, -⟩ | ⟨a, b, hab, ha, hne, -, -⟩
  · exact hs
  · exact absurd (h a b hab ha) hne

theorem dropTrailingBlankLines_of_tidy {s : List Char} (h : EndsTidy s) :
    dropTrailingBlankLines s = s := by
  rcases dropTrailingBlankLines_cases s with ⟨hs, -⟩ | ⟨a, b, hab, hb, hs, -⟩
  · exact hs
  · rw [hs, hab, h a b hab hb]

theorem dropLineEndBlanks_of_tidy {s : List Char} (h : LinesTidy s) : dropLineEndBlanks s = s := by
  induction s with
  | nil => rfl
  | cons c r ih =>
    have hrest : dropLineEndBlanks r = r := by
      apply ih
      intro a x b hr
      exact h (c :: a) x b (by rw [hr, List.cons_append])
    rw [dropLineEndBlanks_cons, hrest]
    apply if_neg
    intro hc
    rw [Bool.and_eq_true, beq_iff_eq] at hc
    obtain ⟨b, rfl⟩ := List.head?_eq_some_iff.mp hc.2
    have hnot := h [] c b rfl
    rw [hc.1] at hnot
    cases hnot

end Passes

theorem thins_tidyChars (s : List Char) : Thins s (tidyChars s) :=
  (thins_dropLeadingBlankLines s).trans
    ((thins_dropTrailingBlankLines _).trans (thins_dropLineEndBlanks _))

/-- Each pass keeps what the passes before it have put right. -/
theorem tidied_tidyChars (s : List Char) : Tidied (tidyChars s) where
  start := ((startsTidy_dropLeadingBlankLines s).thins (thins_dropTrailingBlankLines _)).thins
    (thins_dropLineEndBlanks _)
  ending := (endsTidy_dropTrailingBlankLines _).thins (thins_dropLineEndBlanks _)
  lines := linesTidy_dropLineEndBlanks _

theorem tidyChars_eq_self_iff (s : List Char) : tidyChars s = s ↔ Tidied s := by
  constructor
  · intro h
    rw [← h]
    exact tidied_tidyChars s
  · intro h
    unfold tidyChars
    rw [dropLeadingBlankLines_of_tidy h.start, dropTrailingBlankLines_of_tidy h.ending,
      dropLineEndBlanks_of_tidy h.lines]

theorem takeWhile_of_feed_mem {s : List Char} (h : '\n' ∈ (tidyChars s).takeWhile isBlank) :
    ∃ r, s.takeWhile isBlank = '\n' :: r ∧ '\n' ∉ r := by
  obtain ⟨a, b, hab, ha⟩ := mem_takeWhile_iff.mp h
  have hrest : Thins (dropLeadingBlankLines s) (a ++ '\n' :: b) := by
    rw [← hab]
    exact (thins_dropTrailingBlankLines _).trans (thins_dropLineEndBlanks _)
  obtain ⟨a', b', hs, ha', -⟩ := hrest.split
  have hblank := ha'.allBlank ha
  rcases dropLeadingBlankLines_cases s with ⟨heq, htidy⟩ | ⟨x, y, -, -, -, heq, hnone⟩
  · rw [heq] at hs
    obtain rfl := htidy a' b' hs hblank
    refine ⟨b'.takeWhile isBlank, ?_, fun hmem => ?_⟩
    · rw [hs, List.nil_append, List.takeWhile_cons_of_pos isBlank_newline]
    · obtain ⟨u, v, rfl, hu⟩ := mem_takeWhile_iff.mp hmem
      have hfeed : AllBlank ('\n' :: u) := List.forall_mem_cons.mpr ⟨isBlank_newline, hu⟩
      exact absurd (htidy ('\n' :: u) v hs hfeed) (by simp)
  · rw [heq] at hs
    exact absurd (mem_takeWhile_iff.mpr ⟨a', b', hs, hblank⟩) hnone

/-- Tidying takes out blanks only, and leads to a normal form that it does not change any more. -/
theorem tidy_normal_form (s : String) :
    tidy (tidy s) = tidy s ∧ (tidy s = s ↔ Tidied s.toList) ∧
    (tidy s).toList.Sublist s.toList ∧
    (tidy s).toList.filter (!isBlank ·) = s.toList.filter (!isBlank ·) ∧
    (∀ a c b, (tidy s).toList = a ++ c :: '\n' :: b → c ≠ ' ' ∧ c ≠ '\t') ∧
    (∀ a b, takeLastWhile isBlank (tidy s).toList = a ++ '\n' :: b → '\n' ∉ a ∧ b = []) ∧
    ('\n' ∈ (tidy s).toList.takeWhile isBlank →
      ∃ r, s.toList.takeWhile isBlank = '\n' :: r ∧ '\n' ∉ r) := by
  have hchars (t : String) : (tidy t).toList = tidyChars t.toList := String.toList_ofList
  have hself (t : String) : tidy t = t ↔ Tidied t.toList := by
    rw [← tidyChars_eq_self_iff, ← hchars, String.toList_inj]
  have htidied : Tidied (tidy s).toList := by
    rw [hchars]
    exact tidied_tidyChars s.toList
  have hthins : Thins s.toList (tidy s).toList := by
    rw [hchars]
    exact thins_tidyChars s.toList
  refine ⟨(hself _).mpr htidied, hself s, hthins.sublist, hthins.filter_eq, ?_, ?_, ?_⟩
  · intro a c b hab
    simpa [isSpaceOrTab] using htidied.lines a c b hab
  · exact fun a b hab => htidied.ending.feed_last hab
  · rw [hchars]
    exact takeWhile_of_feed_mem

end BlockSketch.Text
