import BlockSketch.Proofs.Text.Tidying
import BlockSketch.Text.Lines

namespace BlockSketch.Text

def isInk (s : String) : Bool := s.toList.all fun c => !isBlank c

/-- What a template writes before a text and behind it. -/
structure Quotes where
  opening : String
  closing : String
  opening_ink : isInk opening = true
  closing_ink : isInk closing = true
  opening_ne : opening ≠ ""
  closing_ne : closing ≠ ""

/-- The text with `n` spaces behind each line feed. -/
def spaceAfterFeeds (n : Nat) (s : List Char) : List Char :=
  s.flatMap fun c => if c = '\n' then c :: List.replicate n ' ' else [c]

/-- What becomes of a text between quotes that is moved to the right by `n` spaces and then tidied. -/
def settled (n : Nat) (s : String) : String :=
  String.ofList (dropLineEndBlanks (spaceAfterFeeds n s.toList))

section Spaces

variable {s : List Char}

theorem spaceAfterFeeds_cons (n : Nat) (c : Char) (r : List Char) :
    spaceAfterFeeds n (c :: r) =
      (if c = '\n' then c :: List.replicate n ' ' else [c]) ++ spaceAfterFeeds n r :=
  rfl

theorem spaceAfterFeeds_append (n : Nat) (s t : List Char) :
    spaceAfterFeeds n (s ++ t) = spaceAfterFeeds n s ++ spaceAfterFeeds n t :=
  List.flatMap_append

theorem spaceAfterFeeds_of_not_mem (n : Nat) (h : '\n' ∉ s) : spaceAfterFeeds n s = s := by
  induction s with
  | nil => rfl
  | cons c r ih =>
    rw [List.mem_cons, not_or] at h
    have hc : ¬ c = '\n' := fun he => h.1 he.symm
    rw [spaceAfterFeeds_cons, if_neg hc, ih h.2, List.singleton_append]

theorem spaceAfterFeeds_zero (s : List Char) : spaceAfterFeeds 0 s = s := by
  unfold spaceAfterFeeds
  rw [List.replicate_zero]
  simp

theorem spaceAfterFeeds_spaceAfterFeeds (m n : Nat) (s : List Char) :
    spaceAfterFeeds m (spaceAfterFeeds n s) = spaceAfterFeeds (n + m) s := by
  have hspaces : '\n' ∉ List.replicate n ' ' := by simp
  induction s with
  | nil => rfl
  | cons c r ih =>
    rw [spaceAfterFeeds_cons, spaceAfterFeeds_cons, spaceAfterFeeds_append, ih]
    by_cases hc : c = '\n'
    · rw [if_pos hc, if_pos hc, spaceAfterFeeds_cons, if_pos hc, spaceAfterFeeds_of_not_mem m hspaces,
        List.cons_append, List.replicate_append_replicate, Nat.add_comm m n]
    · simp [spaceAfterFeeds, hc]

theorem marginAfterFeeds_append (n : Nat) (s : List Char) {t : List Char} (ht : t ≠ []) :
    marginAfterFeeds (List.replicate n ' ') (s ++ t) =
      spaceAfterFeeds n s ++ marginAfterFeeds (List.replicate n ' ') t := by
  induction s with
  | nil => rfl
  | cons c r ih =>
    obtain ⟨d, u, hu⟩ := List.exists_cons_of_ne_nil (List.append_ne_nil_of_right_ne_nil r ht)
    rw [hu] at ih
    rw [List.cons_append, hu, marginAfterFeeds, ih, spaceAfterFeeds_cons]
    by_cases hc : c = '\n' <;> simp [hc]

end Spaces

section Ink

variable {o : String}

theorem isBlank_of_isInk (h : isInk o = true) {c : Char} (hc : c ∈ o.toList) : isBlank c = false := by
  simpa using List.all_eq_true.mp h c hc

theorem ne_newline_of_isInk (h : isInk o = true) {c : Char} (hc : c ∈ o.toList) : c ≠ '\n' := by
  rintro rfl
  have hblank := isBlank_of_isInk h hc
  simp at hblank

theorem marginAfterFeeds_ink (m : List Char) {o : List Char} (h : ∀ c ∈ o, c ≠ '\n')
    (r : List Char) : marginAfterFeeds m (o ++ r) = o ++ marginAfterFeeds m r := by
  induction o with
  | nil => rfl
  | cons c o ih =>
    obtain ⟨hc, ho⟩ := List.forall_mem_cons.mp h
    rw [List.cons_append, List.cons_append, ← ih ho]
    cases o ++ r with
    | nil => rfl
    | cons d u => rw [marginAfterFeeds, if_neg hc]

theorem dropLineEndBlanks_ink {o : List Char} (h : ∀ c ∈ o, isBlank c = false) (r : List Char) :
    dropLineEndBlanks (o ++ r) = o ++ dropLineEndBlanks r := by
  induction o with
  | nil => rfl
  | cons c o ih =>
    obtain ⟨hc, ho⟩ := List.forall_mem_cons.mp h
    have hspace : isSpaceOrTab c = false := by
      cases hs : isSpaceOrTab c with
      | false => rfl
      | true => simp [isBlank_of_isSpaceOrTab hs] at hc
    rw [List.cons_append, dropLineEndBlanks_cons, hspace, ih ho]
    rfl

/-- Ink ends a run of blanks, so that what is before it is cleaned as if nothing were behind it. -/
theorem dropLineEndBlanks_append (s : List Char) {c : Char} (hc : isBlank c = false) (r : List Char) :
    dropLineEndBlanks (s ++ c :: r) = dropLineEndBlanks s ++ dropLineEndBlanks (c :: r) := by
  have hkeep : dropLineEndBlanks (c :: r) = c :: dropLineEndBlanks r :=
    dropLineEndBlanks_ink (o := [c]) (by simpa using hc) r
  have hfeed : c ≠ '\n' := by
    rintro rfl
    simp at hc
  induction s with
  | nil => rfl
  | cons d s ih =>
    rw [List.cons_append, dropLineEndBlanks_cons, dropLineEndBlanks_cons, ih, hkeep]
    cases dropLineEndBlanks s with
    | nil => simp [hfeed]
    | cons e u =>
      rw [List.cons_append, List.head?_cons, List.head?_cons]
      split_ifs
      · rfl
      · rfl

theorem while_append_ink (s : List Char) {c : Char} (hc : isBlank c = false) (r : List Char) :
    (s ++ c :: r).takeWhile isBlank = s.takeWhile isBlank ∧
      (s ++ c :: r).dropWhile isBlank = s.dropWhile isBlank ++ c :: r := by
  induction s with
  | nil => simp [hc]
  | cons d s ih =>
    obtain ⟨htake, hdrop⟩ := ih
    cases hd : isBlank d <;> simp [hd, htake, hdrop]

theorem lastWhile_append_ink (s : List Char) {c : Char} (hc : isBlank c = false) (r : List Char) :
    takeLastWhile isBlank (s ++ c :: r) = takeLastWhile isBlank r ∧
      dropLastWhile isBlank (s ++ c :: r) = s ++ c :: dropLastWhile isBlank r := by
  obtain ⟨htake, hdrop⟩ := while_append_ink r.reverse hc s.reverse
  simp [takeLastWhile, dropLastWhile, htake, hdrop]

theorem dropLeadingBlankLines_append (s : List Char) {c : Char} (hc : isBlank c = false)
    (r : List Char) : dropLeadingBlankLines (s ++ c :: r) = dropLeadingBlankLines s ++ c :: r := by
  obtain ⟨htake, hdrop⟩ := while_append_ink s hc r
  simp only [dropLeadingBlankLines, htake, hdrop]
  split_ifs
  · rw [List.append_assoc]
  · rfl

theorem dropTrailingBlankLines_append (s : List Char) {c : Char} (hc : isBlank c = false)
    (r : List Char) : dropTrailingBlankLines (s ++ c :: r) = s ++ c :: dropTrailingBlankLines r := by
  obtain ⟨htake, hdrop⟩ := lastWhile_append_ink s hc r
  simp only [dropTrailingBlankLines, htake, hdrop]
  split_ifs
  · simp
  · rfl

end Ink

/-- Tidying a text with two pieces of ink in it cleans what is before, between and behind them each by
itself. -/
theorem tidyChars_between {o z : String} (ho : isInk o = true) (hz : isInk z = true) (hne : o ≠ "")
    (hnz : z ≠ "") (x y a : List Char) :
    tidyChars (x ++ o.toList ++ y ++ z.toList ++ a) =
      dropLineEndBlanks (dropLeadingBlankLines x) ++ o.toList ++ dropLineEndBlanks y ++ z.toList ++
        dropLineEndBlanks (dropTrailingBlankLines a) := by
  have hblank {p : String} (hp : isInk p = true) : ∀ c ∈ p.toList, isBlank c = false :=
    fun _ hc => isBlank_of_isInk hp hc
  obtain ⟨c, o', hc⟩ := List.exists_cons_of_ne_nil (show o.toList ≠ [] by simpa using hne)
  obtain ⟨d, z', hd⟩ := List.exists_cons_of_ne_nil (show z.toList ≠ [] by simpa using hnz)
  obtain ⟨z'', e, he⟩ := List.eq_nil_or_concat z.toList |>.resolve_left (by simpa using hnz)
  have hcb : isBlank c = false := hblank ho c (by simp [hc])
  have hdb : isBlank d = false := hblank hz d (by simp [hd])
  have heb : isBlank e = false := hblank hz e (by simp [he])
  have hlead : dropLeadingBlankLines (x ++ o.toList ++ y ++ z.toList ++ a) =
      dropLeadingBlankLines x ++ o.toList ++ y ++ z.toList ++ a := by
    have happend := dropLeadingBlankLines_append x hcb (o' ++ y ++ z.toList ++ a)
    simpa [hc] using happend
  have htrail (x : List Char) : dropTrailingBlankLines (x ++ z.toList ++ a) =
      x ++ z.toList ++ dropTrailingBlankLines a := by
    have happend := dropTrailingBlankLines_append (x ++ z'') heb a
    simpa [he] using happend
  have hlines (x a : List Char) : dropLineEndBlanks (x ++ o.toList ++ y ++ z.toList ++ a) =
      dropLineEndBlanks x ++ o.toList ++ dropLineEndBlanks y ++ z.toList ++ dropLineEndBlanks a := by
    have hfirst : dropLineEndBlanks (x ++ (o.toList ++ (y ++ (z.toList ++ a)))) =
        dropLineEndBlanks x ++ dropLineEndBlanks (o.toList ++ (y ++ (z.toList ++ a))) := by
      rw [hc]
      exact dropLineEndBlanks_append x hcb _
    have hsecond : dropLineEndBlanks (y ++ (z.toList ++ a)) =
        dropLineEndBlanks y ++ dropLineEndBlanks (z.toList ++ a) := by
      rw [hd]
      exact dropLineEndBlanks_append y hdb _
    simp only [List.append_assoc, hfirst, dropLineEndBlanks_ink (hblank ho), hsecond,
      dropLineEndBlanks_ink (hblank hz)]
  rw [tidyChars, hlead, htrail, hlines]

/-- In all the texts the same stands around a text between quotes, which is moved to the right by `n`
spaces. -/
def Quoted {ι : Type} (q : Quotes) (n : Nat) (s text : ι → String) : Prop :=
  ∃ before after, ∀ i, (text i).toList =
    before ++ q.opening.toList ++ spaceAfterFeeds n (s i).toList ++ q.closing.toList ++ after

namespace Quoted

variable {ι : Type} {q : Quotes} {n : Nat} {s text : ι → String}

theorem refl (q : Quotes) (s : ι → String) :
    Quoted q 0 s fun i => q.opening ++ s i ++ q.closing :=
  ⟨[], [], fun i => by simp [spaceAfterFeeds_zero]⟩

theorem congr {text' : ι → String} (h : Quoted q n s text) (ht : ∀ i, text' i = text i) :
    Quoted q n s text' :=
  funext ht ▸ h

theorem surround (h : Quoted q n s text) (a b : String) :
    Quoted q n s fun i => a ++ text i ++ b := by
  obtain ⟨before, after, htext⟩ := h
  exact ⟨a.toList ++ before, after ++ b.toList, fun i => by simp [htext i]⟩

theorem append_left (h : Quoted q n s text) (a : String) : Quoted q n s fun i => a ++ text i := by
  simpa using h.surround a ""

theorem append_right (h : Quoted q n s text) (b : String) : Quoted q n s fun i => text i ++ b := by
  simpa using h.surround "" b

theorem ne_empty (h : Quoted q n s text) (i : ι) : text i ≠ "" := by
  obtain ⟨before, after, htext⟩ := h
  intro he
  have hi := htext i
  rw [he] at hi
  have hempty : q.opening = "" := by
    have hl : q.opening.toList = [] := by simp_all
    simpa using hl
  exact q.opening_ne hempty

/-- Moving all lines to the right also moves those that start in the text between the quotes. -/
theorem indent (h : Quoted q n s text) (m : Nat) : Quoted q (n + m) s fun i =>
    String.ofList ((cutAfter '\n' (text i).toList).flatMap fun line => List.replicate m ' ' ++ line) := by
  obtain ⟨before, after, htext⟩ := h
  have hfeed {p : String} (hp : isInk p = true) : ∀ c ∈ p.toList, c ≠ '\n' :=
    fun _ hc => ne_newline_of_isInk hp hc
  refine ⟨List.replicate m ' ' ++ spaceAfterFeeds m before,
    marginAfterFeeds (List.replicate m ' ') after, fun i => ?_⟩
  rw [String.toList_ofList, ← append_marginAfterFeeds _ _ (by simp [htext i, q.opening_ne]), htext i]
  simp only [List.append_assoc]
  rw [marginAfterFeeds_append m before (by simp [q.opening_ne]),
    marginAfterFeeds_ink _ (hfeed q.opening_ink),
    marginAfterFeeds_append m _ (by simp [q.closing_ne]), spaceAfterFeeds_spaceAfterFeeds,
    marginAfterFeeds_ink _ (hfeed q.closing_ink)]

theorem tidy (h : Quoted q n s text) : ∃ before after, ∀ i,
    Text.tidy (text i) = before ++ q.opening ++ settled n (s i) ++ q.closing ++ after := by
  obtain ⟨before, after, htext⟩ := h
  refine ⟨String.ofList (dropLineEndBlanks (dropLeadingBlankLines before)),
    String.ofList (dropLineEndBlanks (dropTrailingBlankLines after)), fun i => ?_⟩
  rw [Text.tidy, htext i, tidyChars_between q.opening_ink q.closing_ink q.opening_ne q.closing_ne]
  apply String.ext
  simp [settled]

end Quoted

/-- A line feed is never dropped, and what is behind it is cleaned by itself. -/
theorem dropLineEndBlanks_feed (s r : List Char) :
    ∃ t, dropLineEndBlanks (s ++ '\n' :: r) = t ++ '\n' :: dropLineEndBlanks r := by
  induction s with
  | nil => exact ⟨[], rfl⟩
  | cons c s ih =>
    obtain ⟨t, ht⟩ := ih
    rw [List.cons_append, dropLineEndBlanks_cons, ht]
    split_ifs
    · exact ⟨t, rfl⟩
    · exact ⟨c :: t, rfl⟩

theorem linesTidy_of_not_mem {s : List Char} (h : '\n' ∉ s) : LinesTidy s := by
  rintro a c b rfl
  simp at h

/-- Which texts are kept between quotes: one without line feeds is kept wherever it stands, and any other
only if it is not moved and its lines end in no blanks. -/
theorem settled_eq_self_iff (n : Nat) (s : String) :
    settled n s = s ↔ '\n' ∉ s.toList ∨ n = 0 ∧ LinesTidy s.toList := by
  have hlist : settled n s = s ↔ dropLineEndBlanks (spaceAfterFeeds n s.toList) = s.toList := by
    rw [settled, String.ext_iff, String.toList_ofList]
  rw [hlist]
  constructor
  · intro h
    by_cases hfeed : '\n' ∈ s.toList
    · have htidy : LinesTidy s.toList := h ▸ linesTidy_dropLineEndBlanks _
      refine .inr ⟨?_, htidy⟩
      -- The spaces behind the last line feed are still there.
      obtain ⟨a, b, hab, hb⟩ := exists_last_feed hfeed
      have hlast : '\n' ∉ List.replicate n ' ' ++ b := by simp [hb]
      have hspaces : spaceAfterFeeds n (a ++ '\n' :: b) =
          spaceAfterFeeds n a ++ '\n' :: (List.replicate n ' ' ++ b) := by
        rw [spaceAfterFeeds_append, spaceAfterFeeds_cons, if_pos rfl, spaceAfterFeeds_of_not_mem n hb,
          List.cons_append]
      obtain ⟨t, ht⟩ := dropLineEndBlanks_feed (spaceAfterFeeds n a) (List.replicate n ' ' ++ b)
      rw [dropLineEndBlanks_of_tidy (linesTidy_of_not_mem hlast)] at ht
      rw [hab, hspaces, ht] at h
      have htake := congrArg (takeLastWhile (· ≠ '\n')) h
      rw [takeLastWhile_from_feed hlast, takeLastWhile_from_feed hb] at htake
      simpa using congrArg List.length htake
    · exact .inl hfeed
  · rintro (hfeed | ⟨rfl, htidy⟩)
    · rw [spaceAfterFeeds_of_not_mem n hfeed, dropLineEndBlanks_of_tidy (linesTidy_of_not_mem hfeed)]
    · rw [spaceAfterFeeds_zero, dropLineEndBlanks_of_tidy htidy]

end BlockSketch.Text
