import BlockSketch.Document.Load
import BlockSketch.Proofs.Text.Margins

namespace BlockSketch.Text

section Bytes

theorem bytes_eq (s : String) : bytes s = s.toList.flatMap String.utf8EncodeChar := by
  rw [bytes, String.toUTF8_eq_toByteArray, ← String.utf8Encode_toList]
  exact List.toList_data_toByteArray

theorem length_bytes (s : String) : (bytes s).length = s.utf8ByteSize := rfl

theorem feed_ne_or (a : UInt8) {b : UInt8} (hb : 128 ≤ b.toNat) : feed ≠ a ||| b := by
  intro h
  have hle : b.toNat ≤ (a ||| b).toNat := by
    rw [UInt8.toNat_or]
    exact Nat.right_le_or
  rw [← h] at hle
  exact absurd (Nat.le_trans hb hle) (by decide)

theorem utf8EncodeChar_newline : String.utf8EncodeChar '\n' = [feed] := by decide

/-- In a character of more than one byte each of them has its highest bit set. -/
theorem feed_not_mem_utf8EncodeChar {c : Char} (hc : c ≠ '\n') : feed ∉ String.utf8EncodeChar c := by
  rcases c.utf8Size_eq with h | h | h | h
  · rw [String.utf8EncodeChar_eq_singleton h, List.mem_singleton]
    intro hfeed
    have hle := UInt32.le_iff_toNat_le.mp (Char.utf8Size_eq_one_iff.mp h)
    have hval : 10 = c.val.toNat % 256 := congrArg UInt8.toNat hfeed
    have hten : c.val.toNat = 10 := by
      rw [Nat.mod_eq_of_lt (Nat.lt_of_le_of_lt hle (by decide))] at hval
      exact hval.symm
    exact hc (Char.ext (UInt32.toNat_inj.mp hten))
  · simp [String.utf8EncodeChar_eq_cons_cons h, feed_ne_or]
  · simp [String.utf8EncodeChar_eq_cons_cons_cons h, feed_ne_or]
  · simp [String.utf8EncodeChar_eq_cons_cons_cons_cons h, feed_ne_or]

/-- The bytes of pieces of a text are pieces of its bytes. -/
theorem Cut.bytes {pieces : List (List Char)} (h : Cut '\n' pieces) :
    Cut feed (pieces.map (List.flatMap String.utf8EncodeChar)) := by
  have hfeed {line : List Char} (hline : '\n' ∉ line) : feed ∉ line.flatMap String.utf8EncodeChar := by
    intro hmem
    obtain ⟨c, hc, hbyte⟩ := List.mem_flatMap.mp hmem
    exact feed_not_mem_utf8EncodeChar (fun he => hline (he ▸ hc)) hbyte
  induction h with
  | nil => exact .nil
  | last hne hsep =>
    refine .last ?_ (hfeed hsep)
    obtain ⟨c, r, rfl⟩ := List.exists_cons_of_ne_nil hne
    simp
  | cons hsep hs ih =>
    rw [List.map_cons, List.flatMap_append, List.flatMap_singleton, utf8EncodeChar_newline]
    exact .cons (hfeed hsep) ih

theorem flatten_map_encode (pieces : List (List Char)) :
    (pieces.map (List.flatMap String.utf8EncodeChar)).flatten =
      pieces.flatten.flatMap String.utf8EncodeChar := by
  induction pieces with
  | nil => rfl
  | cons piece pieces ih => simp [ih]

/-- The lines of a text are the lines of its bytes. -/
theorem cutAfter_bytes (s : String) :
    cutAfter feed (bytes s) = (cutAfter '\n' s.toList).map (List.flatMap String.utf8EncodeChar) := by
  have hpieces := (cut_cutAfter s.toList).bytes.cutAfter_flatten
  rwa [flatten_map_encode, flatten_cutAfter, ← bytes_eq] at hpieces

theorem reach_bytes (source : String) (p : Place) : p.reach (bytes source) =
    (String.ofList ((cutAfter '\n' source.toList).take (p.line - 1)).flatten).utf8ByteSize +
      (p.column - 1) := by
  rw [Place.reach, cutAfter_bytes, ← List.map_take, flatten_map_encode, ← length_bytes,
    bytes_eq (String.ofList _), String.toList_ofList]

end Bytes

/-- Where the line of an offset starts: right behind the last line feed before the offset, or at the start
of the source if there is none. -/
structure IsLineStart (source : List UInt8) (offset start : Nat) : Prop where
  le : start ≤ offset
  behind_feed : start = 0 ∨ source[start - 1]? = some feed
  no_feed : ∀ j, start ≤ j → j < offset → source[j]? ≠ some feed

theorem IsLineStart.le_of {source : List UInt8} {offset start other : Nat}
    (h : IsLineStart source offset start) (h' : IsLineStart source offset other) : other ≤ start := by
  rcases h'.behind_feed with rfl | hfeed
  · exact Nat.zero_le start
  · apply Nat.le_of_not_lt
    intro hlt
    have hle := h'.le
    exact h.no_feed (other - 1) (by omega) (by omega) hfeed

/-- A text as whole lines and what comes after the last line feed. -/
structure LastLine (s before line : List UInt8) : Prop where
  split : s = before ++ line
  whole : before = [] ∨ ∃ r, before = r ++ [feed]
  no_feed : feed ∉ line

theorem exists_lastLine (s : List UInt8) : ∃ before line, LastLine s before line := by
  induction s with
  | nil => exact ⟨[], [], rfl, .inl rfl, by simp⟩
  | cons c r ih =>
    obtain ⟨before, line, rfl, hwhole, hline⟩ := ih
    rcases hwhole with rfl | ⟨t, rfl⟩
    · by_cases hc : c = feed
      · exact ⟨[feed], line, by simp [hc], .inr ⟨[], rfl⟩, hline⟩
      · exact ⟨[], c :: line, rfl, .inl rfl, by simp [Ne.symm hc, hline]⟩
    · exact ⟨c :: (t ++ [feed]), line, rfl, .inr ⟨c :: t, rfl⟩, hline⟩

theorem length_cutAfter_feed (r : List UInt8) :
    (cutAfter feed (r ++ [feed])).length = (r ++ [feed]).count feed := by
  induction r with
  | nil => rfl
  | cons c r ih =>
    by_cases hc : c = feed
    · subst hc
      rw [List.cons_append, cutAfter_sep, List.length_cons, ih, List.count_cons_self]
    · cases hr : cutAfter feed (r ++ [feed]) with
      | nil => simpa using eq_nil_of_cutAfter hr
      | cons p ps =>
        rw [hr] at ih
        rw [List.cons_append, cutAfter_cons_of_ne hc hr, List.count_cons_of_ne hc, ← ih]
        rfl

namespace LastLine

variable {source before line : List UInt8} {i : Nat}

theorem count_eq {s : List UInt8} (h : LastLine s before line) : s.count feed = before.count feed := by
  rw [h.split, List.count_append, List.count_eq_zero_of_not_mem h.no_feed, Nat.add_zero]

theorem length_takeWhile {s : List UInt8} (h : LastLine s before line) :
    (s.reverse.takeWhile (· ≠ feed)).length = line.length := by
  have hline : ∀ b ∈ line.reverse, decide (b ≠ feed) = true := by
    intro b hb
    have hne : b ≠ feed := fun he => h.no_feed (he ▸ List.mem_reverse.mp hb)
    simpa using hne
  have hbefore : before.reverse.takeWhile (· ≠ feed) = [] := by
    rcases h.whole with rfl | ⟨r, rfl⟩
    · rfl
    · simp
  rw [h.split, List.reverse_append, List.takeWhile_append_of_pos hline, hbefore, List.append_nil,
    List.length_reverse]

theorem ofOffset_eq (h : LastLine (source.take i) before line) :
    Place.ofOffset source i = ⟨1 + (source.take i).count feed, line.length⟩ := by
  rw [Place.ofOffset, h.length_takeWhile]

/-- As many lines as there are line feeds before an offset are what is before its line. -/
theorem flatten_take (h : LastLine (source.take i) before line) :
    ((cutAfter feed source).take ((source.take i).count feed)).flatten = before := by
  rw [h.count_eq]
  rcases h.whole with rfl | ⟨r, rfl⟩
  · rfl
  · have hsource : source = r ++ feed :: (line ++ source.drop i) := by
      have hparts := List.take_append_drop i source
      rw [h.split] at hparts
      simpa using hparts.symm
    rw [hsource, cutAfter_append, ← length_cutAfter_feed, List.take_left, flatten_cutAfter]

theorem reach_eq (h : LastLine (source.take i) before line) :
    (Place.ofOffset source i).reach source = before.length + (line.length - 1) := by
  rw [h.ofOffset_eq, Place.reach, Nat.add_sub_cancel_left, h.flatten_take]

theorem length_add (h : LastLine (source.take i) before line) (hi : i ≤ source.length) :
    before.length + line.length = i := by
  rw [← List.length_append, ← h.split, List.length_take, Nat.min_eq_left hi]

theorem isLineStart (h : LastLine (source.take i) before line) (hi : i ≤ source.length) :
    IsLineStart source i before.length := by
  have hlength := h.length_add hi
  have hget {j : Nat} (hj : j < i) : source[j]? = (before ++ line)[j]? := by
    rw [← h.split, List.getElem?_take_of_lt hj]
  refine ⟨by omega, ?_, ?_⟩
  · rcases h.whole with rfl | ⟨r, rfl⟩
    · exact .inl rfl
    · right
      rw [List.length_append, List.length_singleton] at hlength ⊢
      rw [hget (by omega)]
      simp
  · intro j hle hlt hfeed
    rw [hget hlt, List.getElem?_append_right hle] at hfeed
    exact h.no_feed (List.mem_of_getElem? hfeed)

end LastLine

/-- The byte that a place points at where sums of words are checked: none if the offset is no word. -/
def Place.checkedOffset? (source : List UInt8) (p : Place) : Option Nat :=
  if p.reach source < UInt64.size then some (min (p.reach source) source.length) else none

theorem checkedOffset?_eq_none_iff {source : List UInt8} {p : Place} :
    p.checkedOffset? source = none ↔ UInt64.size ≤ p.reach source := by
  simp [Place.checkedOffset?]

theorem checkedOffset?_eq_some_iff {source : List UInt8} {p : Place} {offset : Nat} :
    p.checkedOffset? source = some offset ↔
      p.reach source < UInt64.size ∧ offset = min (p.reach source) source.length := by
  simp [Place.checkedOffset?, eq_comm]

theorem toOffset_of_checkedOffset? {source : List UInt8} {p : Place} {offset : Nat}
    (h : p.checkedOffset? source = some offset) : p.toOffset source = offset := by
  obtain ⟨hlt, hoffset⟩ := checkedOffset?_eq_some_iff.mp h
  rw [Place.toOffset, Nat.mod_eq_of_lt hlt, hoffset]

/-- An offset has one start of its line, and its place leads back to the byte before it, or to the start of
its line if it is there itself. -/
theorem checkedOffset?_ofOffset {source : List UInt8} {i : Nat} (hi : i ≤ source.length)
    (hsize : source.length < UInt64.size) :
    ∃ start, (∀ k, IsLineStart source i k ↔ k = start) ∧
      Place.ofOffset source i = ⟨1 + (source.take i).count feed, i - start⟩ ∧
      (Place.ofOffset source i).checkedOffset? source =
        some (if i - start = 0 then i else i - 1) := by
  obtain ⟨before, line, h⟩ := exists_lastLine (source.take i)
  have hlength := h.length_add hi
  have hstart := h.isLineStart hi
  refine ⟨before.length, fun k => ⟨fun hk => ?_, fun hk => hk ▸ hstart⟩, ?_, ?_⟩
  · exact Nat.le_antisymm (hstart.le_of hk) (hk.le_of hstart)
  · rw [h.ofOffset_eq, ← hlength, Nat.add_sub_cancel_left]
  · have hreach := h.reach_eq
    refine checkedOffset?_eq_some_iff.mpr ⟨by omega, ?_⟩
    rw [hreach]
    split <;> omega

theorem span_bounds (source : List UInt8) (p : Place) :
    (p.span source).start ≤ (p.span source).stop ∧ (p.span source).stop ≤ source.length := by
  have hle : p.toOffset source ≤ source.length := Nat.min_le_right _ _
  exact ⟨Nat.le_min.mpr ⟨Nat.le_succ _, hle⟩, Nat.min_le_right _ _⟩

theorem diagnostics_bounds (source : String) (e : LoadError) {d : Diagnostic} {s : Span}
    (hd : d ∈ e.diagnostics source) (hs : d.span = some s) :
    s.start ≤ s.stop ∧ s.stop ≤ source.utf8ByteSize := by
  cases e with
  | unreadable failure =>
    obtain rfl := List.mem_singleton.mp hd
    obtain rfl := Option.some.inj hs
    exact span_bounds (bytes source) _
  | problems list =>
    obtain ⟨p, -, rfl⟩ := List.mem_map.mp hd
    simp [LoadError.problemDiagnostic] at hs

/-- The place of an offset leads back to the byte before it, or to the offset itself at the start of
a line. A sum that is no word wraps, or has no answer if sums are checked. -/
theorem places_lead_back (source : String) :
    (∀ p : Place, p.reach (bytes source) =
      (String.ofList ((cutAfter '\n' source.toList).take (p.line - 1)).flatten).utf8ByteSize +
        (p.column - 1)) ∧
    (∀ p : Place, p.toOffset (bytes source) =
      min (p.reach (bytes source) % UInt64.size) source.utf8ByteSize) ∧
    (∀ p : Place, (p.checkedOffset? (bytes source) = none ↔ UInt64.size ≤ p.reach (bytes source)) ∧
      ∀ offset, p.checkedOffset? (bytes source) = some offset →
        p.toOffset (bytes source) = offset ∧
          offset = min (p.reach (bytes source)) source.utf8ByteSize) ∧
    (source.utf8ByteSize < UInt64.size → ∀ i ≤ source.utf8ByteSize,
      ∃ start, (∀ k, IsLineStart (bytes source) i k ↔ k = start) ∧
        Place.ofOffset (bytes source) i = ⟨1 + ((bytes source).take i).count feed, i - start⟩ ∧
        (Place.ofOffset (bytes source) i).checkedOffset? (bytes source) =
          some (if i - start = 0 then i else i - 1) ∧
        (Place.ofOffset (bytes source) i).toOffset (bytes source) =
          if i - start = 0 then i else i - 1) ∧
    (∀ p : Place, (p.span (bytes source)).start = p.toOffset (bytes source) ∧
      (p.span (bytes source)).stop = min (p.toOffset (bytes source) + 1) source.utf8ByteSize ∧
      (p.span (bytes source)).start ≤ (p.span (bytes source)).stop ∧
      (p.span (bytes source)).stop ≤ source.utf8ByteSize) ∧
    (∀ e : LoadError, ∀ d ∈ e.diagnostics source, ∀ s, d.span = some s →
      s.start ≤ s.stop ∧ s.stop ≤ source.utf8ByteSize) := by
  refine ⟨reach_bytes source, fun _ => rfl, fun p => ⟨checkedOffset?_eq_none_iff, ?_⟩, ?_, ?_, ?_⟩
  · exact fun offset h => ⟨toOffset_of_checkedOffset? h, (checkedOffset?_eq_some_iff.mp h).2⟩
  · intro hsize i hi
    obtain ⟨start, hstart, hof, hback⟩ := checkedOffset?_ofOffset hi hsize
    exact ⟨start, hstart, hof, hback, toOffset_of_checkedOffset? hback⟩
  · exact fun p => ⟨rfl, rfl, span_bounds (bytes source) p⟩
  · exact fun e _ hd _ hs => diagnostics_bounds source e hd hs

/-- An offset inside a character, the one at the end of a text that ends with a line feed, and a column that
leads past the last word. -/
theorem places_lead_back_sample :
    Place.ofOffset (bytes "a\né\n") 3 = ⟨2, 1⟩ ∧ Place.toOffset (bytes "a\né\n") ⟨2, 1⟩ = 2 ∧
      Place.ofOffset (bytes "a\né\n") 5 = ⟨3, 0⟩ ∧ Place.toOffset (bytes "a\né\n") ⟨3, 0⟩ = 5 ∧
      Place.toOffset (bytes "a\né\n") ⟨2, 18446744073709551615⟩ = 0 ∧
      Place.checkedOffset? (bytes "a\né\n") ⟨2, 18446744073709551615⟩ = none := by
  obtain ⟨hreach, hto, hchecked, hback, -⟩ := places_lead_back "a\né\n"
  have hinside : Place.ofOffset (bytes "a\né\n") 3 = ⟨2, 1⟩ := by decide
  have hend : Place.ofOffset (bytes "a\né\n") 5 = ⟨3, 0⟩ := by decide
  obtain ⟨start, -, hof, -, hinto⟩ := hback (by decide) 3 (by decide)
  obtain ⟨start', -, hof', -, hinto'⟩ := hback (by decide) 5 (by decide)
  have hcolumn : 3 - start = 1 := congrArg Place.column (hof.symm.trans hinside)
  have hcolumn' : 5 - start' = 0 := congrArg Place.column (hof'.symm.trans hend)
  rw [hinside, hcolumn] at hinto
  rw [hend, hcolumn'] at hinto'
  have hfar : Place.reach (bytes "a\né\n") ⟨2, 18446744073709551615⟩ = UInt64.size := by
    rw [hreach]
    decide
  refine ⟨hinside, hinto, hend, hinto', ?_, ?_⟩
  · rw [hto, hfar]
    decide
  · exact (hchecked _).1.mpr (Nat.le_of_eq hfar.symm)

end BlockSketch.Text
