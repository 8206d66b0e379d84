import BlockSketch.Decimal.Plain
import Mathlib.Tactic.SplitIfs

namespace BlockSketch.Decimal

def IsDigits (s : List Char) : Prop := s ≠ [] ∧ ∀ c ∈ s, c.isDigit = true

def IsNumeral (s : List Char) : Prop :=
  IsDigits s ∨ ∃ whole places, IsDigits whole ∧ IsDigits places ∧ s = whole ++ '.' :: places

section

open Float.Model

theorem toNat_unpackExponent (x : Float) :
    (@UnpackedFloat.unpackExponent .binary64 x.toBits.toBitVec).toNat =
      x.toBits.toNat / Nat.pow 2 52 % Nat.pow 2 11 := by
  simp [UnpackedFloat.unpackExponent, Nat.shiftRight_eq_div_pow]

theorem scale_of_isFinite {x : Float} (h : x.isFinite = true) :
    x.toBits.toNat / Nat.pow 2 52 % Nat.pow 2 11 ≠ 2047 := by
  -- All eleven bits of the scale would be set, and then the double is infinite or no number.
  intro hs
  rw [← toNat_unpackExponent] at hs
  have he : @UnpackedFloat.unpackExponent .binary64 x.toBits.toBitVec = -1#11 := by
    apply BitVec.eq_of_toNat_eq
    rw [hs]
    rfl
  have hx : x.isFinite = (UnpackedFloat.unpack .binary64 x.toBits.toBitVec).isFinite := rfl
  have hunpack : UnpackedFloat.unpack .binary64 x.toBits.toBitVec =
      if @UnpackedFloat.unpackMantissa .binary64 x.toBits.toBitVec = 0#52 then
        .infinity (.ofBitVec (@UnpackedFloat.unpackSign .binary64 x.toBits.toBitVec))
      else .notANumber := if_pos he
  rw [hx, hunpack] at h
  split_ifs at h
  · exact Bool.false_ne_true h
  · exact Bool.false_ne_true h

end

theorem ofFloat_of_isFinite {x : Float} (h : x.isFinite = true) :
    ∃ negative mantissa exponent, Binary.ofFloat x = .finite negative mantissa exponent := by
  simp only [Binary.ofFloat, scale_of_isFinite h, if_false]
  split_ifs <;> exact ⟨_, _, _, rfl⟩

theorem digitText_ne_nil (n : Nat) : digitText n ≠ [] := Nat.toDigits_ne_nil

theorem isDigits_digitText (n : Nat) : IsDigits (digitText n) :=
  ⟨digitText_ne_nil n, fun _ hc => isDigit_of_mem_digitText hc⟩

theorem isDigit_of_mem_replicate {n : Nat} {c : Char} (h : c ∈ List.replicate n '0') :
    c.isDigit = true := by
  rw [List.eq_of_mem_replicate h]
  rfl

theorem isNumeral_positional (d : Digits) : IsNumeral d.positional := by
  have hd := isDigits_digitText d.coefficient
  simp only [Digits.positional]
  split_ifs with hp hl
  · refine .inl ⟨by simp [hd.1], ?_⟩
    intro c hc
    rcases List.mem_append.mp hc with hc | hc
    · exact hd.2 c hc
    · exact isDigit_of_mem_replicate hc
  · refine .inr ⟨_, _, ⟨?_, ?_⟩, ⟨?_, ?_⟩, rfl⟩
    · intro hn
      have hlen := congrArg List.length hn
      simp only [List.length_take, List.length_nil] at hlen
      omega
    · exact fun c hc => hd.2 c (List.mem_of_mem_take hc)
    · intro hn
      have hlen := congrArg List.length hn
      simp only [List.length_drop, List.length_nil] at hlen
      omega
    · exact fun c hc => hd.2 c (List.mem_of_mem_drop hc)
  · refine .inr ⟨['0'], _, ⟨by simp, by simp⟩, ⟨by simp [hd.1], ?_⟩, rfl⟩
    intro c hc
    rcases List.mem_append.mp hc with hc | hc
    · exact isDigit_of_mem_replicate hc
    · exact hd.2 c hc

theorem isNumeral_plainDigits (mantissa : Nat) (exponent : Int) :
    IsNumeral (plainDigits mantissa exponent) := by
  unfold plainDigits
  split
  · exact .inl (isDigits_digitText _)
  · exact isNumeral_positional _

/-- The plain text of a finite number is a numeral with at most a minus in front. -/
theorem plainText_of_isFinite {x : Float} (h : x.isFinite = true) :
    ∃ s, IsNumeral s ∧
      (plainText x = String.ofList s ∨ plainText x = "-" ++ String.ofList s) := by
  obtain ⟨negative, mantissa, exponent, hx⟩ := ofFloat_of_isFinite h
  refine ⟨_, isNumeral_plainDigits mantissa exponent, ?_⟩
  simp only [plainText, hx]
  split_ifs
  · exact .inr rfl
  · exact .inl rfl

def IsSigned (s : List Char) : Prop := ∃ t, IsNumeral t ∧ (s = t ∨ s = '-' :: t)

theorem isSigned_plainText {x : Float} (h : x.isFinite = true) : IsSigned (plainText x).toList := by
  obtain ⟨s, hs, htext⟩ := plainText_of_isFinite h
  refine ⟨s, hs, htext.imp (fun ht => ?_) fun ht => ?_⟩ <;> simp [ht]

theorem IsNumeral.ne_nil {s : List Char} (h : IsNumeral s) : s ≠ [] := by
  rcases h with h | ⟨whole, places, -, -, rfl⟩
  · exact h.1
  · simp

theorem IsNumeral.chars {s : List Char} (h : IsNumeral s) :
    ∀ c ∈ s, c.isDigit = true ∨ c = '.' := by
  intro c hc
  rcases h with h | ⟨whole, places, hw, hp, rfl⟩
  · exact .inl (h.2 c hc)
  · rcases List.mem_append.mp hc with hc | hc
    · exact .inl (hw.2 c hc)
    · rcases List.mem_cons.mp hc with rfl | hc
      · exact .inr rfl
      · exact .inl (hp.2 c hc)

theorem IsSigned.ne_nil {s : List Char} (h : IsSigned s) : s ≠ [] := by
  obtain ⟨t, ht, rfl | rfl⟩ := h
  · exact ht.ne_nil
  · simp

theorem IsSigned.chars {s : List Char} (h : IsSigned s) :
    ∀ c ∈ s, c.isDigit = true ∨ c = '.' ∨ c = '-' := by
  obtain ⟨t, ht, hs⟩ := h
  have hdigits : ∀ c ∈ t, c.isDigit = true ∨ c = '.' ∨ c = '-' :=
    fun c hc => (ht.chars c hc).imp_right .inl
  rcases hs with rfl | rfl
  · exact hdigits
  · exact List.forall_mem_cons.mpr ⟨.inr (.inr rfl), hdigits⟩

end BlockSketch.Decimal
