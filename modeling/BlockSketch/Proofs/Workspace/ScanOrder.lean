import BlockSketch.Proofs.Decimal.Numeral
import BlockSketch.Workspace.Roots

namespace BlockSketch

namespace Double

open Float.Model
open Float.Model.UnpackedFloat (Sign)

theorem pow_52 : Nat.pow 2 52 = 4503599627370496 := rfl

theorem pow_63 : Nat.pow 2 63 = 9223372036854775808 := rfl

theorem pow_64 : Nat.pow 2 64 = 18446744073709551616 := rfl

/-- The first bit of a double. -/
def sign (x : Float) : Sign := if x.toBits.toNat < Nat.pow 2 63 then .positive else .negative

/-- The next eleven bits. -/
def scale (x : Float) : Nat := x.toBits.toNat / Nat.pow 2 52 % Nat.pow 2 11

/-- The last 52 bits. -/
def fraction (x : Float) : Nat := x.toBits.toNat % Nat.pow 2 52

def magnitude (x : Float) : Nat := x.toBits.toNat % Nat.pow 2 63

theorem magnitude_eq (x : Float) :
    magnitude x = scale x * 4503599627370496 + fraction x ∧ scale x < 2048 ∧
      fraction x < 4503599627370496 := by
  have h11 : Nat.pow 2 11 = 2048 := rfl
  unfold magnitude scale fraction
  rw [h11, pow_52, pow_63]
  omega

theorem unpackExponent_eq_iff (x : Float) (e : BitVec 11) :
    @UnpackedFloat.unpackExponent .binary64 x.toBits.toBitVec = e ↔ scale x = e.toNat := by
  rw [← BitVec.toNat_inj, Decimal.toNat_unpackExponent]
  rfl

theorem toNat_unpackMantissa (x : Float) :
    (@UnpackedFloat.unpackMantissa .binary64 x.toBits.toBitVec).toNat = fraction x := by
  simp [UnpackedFloat.unpackMantissa, fraction]

theorem unpackMantissa_eq_zero_iff (x : Float) :
    @UnpackedFloat.unpackMantissa .binary64 x.toBits.toBitVec = 0#52 ↔ fraction x = 0 := by
  rw [← BitVec.toNat_inj, toNat_unpackMantissa]
  rfl

theorem ofBitVec_unpackSign (x : Float) :
    Sign.ofBitVec (@UnpackedFloat.unpackSign .binary64 x.toBits.toBitVec) = sign x := by
  have hlt : x.toBits.toNat < 18446744073709551616 := x.toBits.toNat_lt
  have h63 := pow_63
  have hsign : @UnpackedFloat.unpackSign .binary64 x.toBits.toBitVec =
      x.toBits.toBitVec.extractLsb' 63 1 := rfl
  have hbit : (@UnpackedFloat.unpackSign .binary64 x.toBits.toBitVec).toNat =
      x.toBits.toNat / 9223372036854775808 % 2 := by
    simp [hsign, Nat.shiftRight_eq_div_pow]
  have hzero : @UnpackedFloat.unpackSign .binary64 x.toBits.toBitVec = 0#1 ↔
      x.toBits.toNat < Nat.pow 2 63 := by
    rw [← BitVec.toNat_inj, hbit, h63, BitVec.toNat_zero]
    omega
  unfold Sign.ofBitVec sign
  simp only [hzero]

theorem toNat_one_append (x : Float) :
    (1#1 ++ @UnpackedFloat.unpackMantissa .binary64 x.toBits.toBitVec).toNat =
      4503599627370496 + fraction x := by
  rw [BitVec.toNat_append, ← Nat.shiftLeft_add_eq_or_of_lt (BitVec.isLt _), toNat_unpackMantissa]
  simp [Nat.shiftLeft_eq]

/-- The parts of a number, and the bits that they are packed into, the first one apart. All
subnormal numbers share one scale. -/
inductive Packs : UnpackedFloat → Sign → Nat → Prop where
  | infinity (s : Sign) : Packs (.infinity s) s (2047 * 4503599627370496)
  | zero (s : Sign) : Packs (.zero s) s 0
  | finite (s : Sign) {m a : Nat} {e : Int} (pos : 0 < m)
    (ha : a = (e + 1074).toNat * 4503599627370496 + m) (hm : m < 2 * 4503599627370496)
    (he : -1074 ≤ e) (hs : m < 4503599627370496 → e = -1074) (hlt : a < 2047 * 4503599627370496) :
    Packs (.finite s m e pos) s a

theorem Packs.le {u : UnpackedFloat} {s : Sign} {a : Nat} (h : Packs u s a) :
    a ≤ 2047 * 4503599627370496 := by
  cases h with
  | infinity => exact Nat.le_refl _
  | zero => exact Nat.zero_le _
  | finite _ _ _ _ _ _ hlt => exact Nat.le_of_lt hlt

theorem packs_subnormal {x : Float} {m : Nat} {e : Int} (hm : m = fraction x) (he : e = -1074)
    (pos : 0 < m) (h : scale x = 0) : Packs (.finite (sign x) m e pos) (sign x) (magnitude x) := by
  obtain ⟨hmag, -, hfraction⟩ := magnitude_eq x
  refine .finite (sign x) pos ?_ ?_ ?_ ?_ ?_
  · rw [hmag]
    omega
  all_goals omega

theorem packs_normal {x : Float} {m : Nat} {e : Int} (hm : m = 4503599627370496 + fraction x)
    (he : e = scale x - 1075) (pos : 0 < m) (h : scale x ≠ 0) (htop : scale x ≠ 2047) :
    Packs (.finite (sign x) m e pos) (sign x) (magnitude x) := by
  obtain ⟨hmag, hscale, hfraction⟩ := magnitude_eq x
  refine .finite (sign x) pos ?_ ?_ ?_ ?_ ?_
  · rw [hmag]
    omega
  all_goals omega

theorem packs_unpack {x : Float} (h : x.isNaN = false) :
    Packs (UnpackedFloat.unpack .binary64 x.toBits.toBitVec) (sign x) (magnitude x) := by
  have hmag := (magnitude_eq x).1
  have hE : (@UnpackedFloat.unpackExponent .binary64 x.toBits.toBitVec).toNat = scale x :=
    Decimal.toNat_unpackExponent x
  have hbias : (Format.exponentBias .binary64 : Int) = 1023 := rfl
  have hx : x.isNaN = (UnpackedFloat.unpack .binary64 x.toBits.toBitVec).isNaN := rfl
  rw [hx] at h
  unfold UnpackedFloat.unpack at h ⊢
  dsimp only at h ⊢
  rw [ofBitVec_unpackSign] at h ⊢
  by_cases he : @UnpackedFloat.unpackExponent .binary64 x.toBits.toBitVec =
      -1#(Format.exponentBits .binary64)
  · rw [if_pos he] at h ⊢
    by_cases hm : @UnpackedFloat.unpackMantissa .binary64 x.toBits.toBitVec =
        0#(Format.mantissaBitsWithoutImplicit .binary64)
    · rw [if_pos hm]
      rw [hmag, (unpackExponent_eq_iff x _).mp he, (unpackMantissa_eq_zero_iff x).mp hm]
      exact .infinity (sign x)
    · rw [if_neg hm] at h
      cases h
  · rw [if_neg he]
    by_cases hsmall : @UnpackedFloat.unpackExponent .binary64 x.toBits.toBitVec =
        0#(Format.exponentBits .binary64)
    · rw [if_pos hsmall]
      have hzero : scale x = 0 := (unpackExponent_eq_iff x _).mp hsmall
      by_cases hm : @UnpackedFloat.unpackMantissa .binary64 x.toBits.toBitVec =
          0#(Format.mantissaBitsWithoutImplicit .binary64)
      · rw [dif_pos hm, hmag, hzero, (unpackMantissa_eq_zero_iff x).mp hm]
        exact .zero (sign x)
      · rw [dif_neg hm]
        refine packs_subnormal (toNat_unpackMantissa x) ?_ _ hzero
        rw [hE, hbias, hzero]
        rfl
    · rw [if_neg hsmall]
      have hpos : scale x ≠ 0 := fun hzero => hsmall ((unpackExponent_eq_iff x _).mpr hzero)
      have htop : scale x ≠ 2047 := fun htop => he ((unpackExponent_eq_iff x _).mpr htop)
      refine packs_normal (toNat_one_append x) ?_ _ hpos htop
      rw [hE, hbias]
      rfl

theorem compare_neg (i j : Int) : compare (-i) (-j) = (compare i j).swap := by
  rcases Int.lt_trichotomy i j with h | rfl | h
  · rw [Int.compare_eq_lt.mpr h]
    exact Int.compare_eq_gt.mpr (by omega)
  · rw [Int.compare_eq_eq.mpr rfl, Int.compare_eq_eq.mpr rfl]
    rfl
  · rw [Int.compare_eq_gt.mpr h]
    exact Int.compare_eq_lt.mpr (by omega)

theorem compare_finite {m n a b : Nat} {e f : Int} {pos : 0 < m} {pos' : 0 < n}
    (hu : Packs (.finite .positive m e pos) .positive a)
    (hv : Packs (.finite .positive n f pos') .positive b) :
    (compare e f).then (compare m n) = compare (a : Int) (b : Int) := by
  cases hu with
  | finite _ _ ha hm he hs _ =>
    cases hv with
    | finite _ _ hb hn hf ht _ =>
      rcases Int.lt_trichotomy e f with h | rfl | h
      · have hlt : (a : Int) < b := by omega
        rw [Int.compare_eq_lt.mpr h, Int.compare_eq_lt.mpr hlt]
        rfl
      · rw [Int.compare_eq_eq.mpr rfl]
        rcases Nat.lt_trichotomy m n with h | rfl | h
        · have hlt : (a : Int) < b := by omega
          rw [Nat.compare_eq_lt.mpr h, Int.compare_eq_lt.mpr hlt]
          rfl
        · have heq : (a : Int) = b := by omega
          rw [Nat.compare_eq_eq.mpr rfl, Int.compare_eq_eq.mpr heq]
          rfl
        · have hgt : (b : Int) < a := by omega
          rw [Nat.compare_eq_gt.mpr h, Int.compare_eq_gt.mpr hgt]
          rfl
      · have hgt : (b : Int) < a := by omega
        rw [Int.compare_eq_gt.mpr h, Int.compare_eq_gt.mpr hgt]
        rfl

theorem some_lt {i j : Int} (h : i < j) : some Ordering.lt = some (compare i j) :=
  congrArg some (Int.compare_eq_lt.mpr h).symm

theorem some_gt {i j : Int} (h : j < i) : some Ordering.gt = some (compare i j) :=
  congrArg some (Int.compare_eq_gt.mpr h).symm

theorem compare_of_packs {u v : UnpackedFloat} {s t : Sign} {a b : Nat} (hu : Packs u s a)
    (hv : Packs v t b) : u.compare v = some (compare (s.apply a) (t.apply b)) := by
  cases hu with
  | infinity s =>
    cases hv with
    | infinity t | zero t => cases s <;> cases t <;> rfl
    | finite t pos hb hn hf ht hlt =>
      cases s with
      | positive => exact some_gt (by cases t <;> simp only [Sign.apply] <;> omega)
      | negative => exact some_lt (by cases t <;> simp only [Sign.apply] <;> omega)
  | zero s =>
    cases hv with
    | infinity t | zero t => cases s <;> cases t <;> rfl
    | finite t pos hb hn hf ht hlt =>
      cases t with
      | positive => exact some_lt (by cases s <;> simp only [Sign.apply] <;> omega)
      | negative => exact some_gt (by cases s <;> simp only [Sign.apply] <;> omega)
  | finite s pos ha hm he hs hlt =>
    cases hv with
    | infinity t =>
      cases t with
      | positive => exact some_lt (by cases s <;> simp only [Sign.apply] <;> omega)
      | negative => exact some_gt (by cases s <;> simp only [Sign.apply] <;> omega)
    | zero t =>
      cases s with
      | positive => exact some_gt (by cases t <;> simp only [Sign.apply] <;> omega)
      | negative => exact some_lt (by cases t <;> simp only [Sign.apply] <;> omega)
    | finite t pos' hb hn hf ht hlt' =>
      have hpos := compare_finite (.finite .positive pos ha hm he hs hlt)
        (.finite .positive pos' hb hn hf ht hlt')
      cases s with
      | positive =>
        cases t with
        | positive => exact congrArg some hpos
        | negative => exact some_gt (by simp only [Sign.apply]; omega)
      | negative =>
        cases t with
        | positive => exact some_lt (by simp only [Sign.apply]; omega)
        | negative =>
          have hneg : compare (Sign.negative.apply a) (Sign.negative.apply b) =
              (compare (a : Int) b).swap := compare_neg a b
          rw [hneg, ← hpos]
          rfl

theorem lt_iff {x y : Float} (hx : x.isNaN = false) (hy : y.isNaN = false) :
    x < y ↔ (sign x).apply (magnitude x) < (sign y).apply (magnitude y) := by
  have hcompare := compare_of_packs (packs_unpack hx) (packs_unpack hy)
  have hlt : x < y ↔ (UnpackedFloat.unpack .binary64 x.toBits.toBitVec).compare
      (UnpackedFloat.unpack .binary64 y.toBits.toBitVec) = some .lt :=
    decide_eq_true_iff.trans beq_iff_eq
  rw [hlt, hcompare, Option.some.injEq, Int.compare_eq_lt]

theorem beq_iff {x y : Float} (hx : x.isNaN = false) (hy : y.isNaN = false) :
    (x == y) = true ↔ (sign x).apply (magnitude x) = (sign y).apply (magnitude y) := by
  have hcompare := compare_of_packs (packs_unpack hx) (packs_unpack hy)
  have hbeq : (x == y) = ((UnpackedFloat.unpack .binary64 x.toBits.toBitVec).compare
      (UnpackedFloat.unpack .binary64 y.toBits.toBitVec) == some .eq) := rfl
  rw [hbeq, beq_iff_eq, hcompare, Option.some.injEq, Int.compare_eq_eq]

/-- The total order of doubles that are numbers: the zero with a minus comes before the other one. -/
def NumberBefore (x y : Float) : Prop :=
  x < y ∨ (x == y) = true ∧ sign x = .negative ∧ sign y = .positive

/-- The total order of what is no number: all negative ones come first, by falling payload, and the
positive ones last, by rising payload. -/
def NotNumberBefore (m n : NotNumber) : Prop :=
  m.negative = true ∧ n.negative = false ∨
    m.negative = true ∧ n.negative = true ∧ n.payload < m.payload ∨
    m.negative = false ∧ n.negative = false ∧ m.payload < n.payload

/-- The total order of doubles. What is no number is beyond all numbers, on the side of its sign. -/
def Before : Double → Double → Prop
  | .number x _, .number y _ => NumberBefore x y
  | .number _ _, .notNumber n => n.negative = false
  | .notNumber m, .number _ _ => m.negative = true
  | .notNumber m, .notNumber n => NotNumberBefore m n

theorem totalRank_of_negative {x : Float} (hx : x.isNaN = false) (h : sign x = .negative) :
    (number x hx).totalRank + magnitude x = Nat.pow 2 63 - 1 := by
  have hlt : x.toBits.toNat < 18446744073709551616 := x.toBits.toNat_lt
  have h63 := pow_63
  have h64 := pow_64
  unfold sign at h
  split_ifs at h with hs
  simp only [totalRank, bits, magnitude, if_neg hs, h63, h64] at hs ⊢
  omega

theorem totalRank_of_positive {x : Float} (hx : x.isNaN = false) (h : sign x = .positive) :
    (number x hx).totalRank = Nat.pow 2 63 + magnitude x := by
  unfold sign at h
  split_ifs at h with hs
  rw [magnitude, Nat.mod_eq_of_lt hs]
  exact if_pos hs

theorem totalRank_number_lt_iff {x y : Float} (hx : x.isNaN = false) (hy : y.isNaN = false) :
    (number x hx).totalRank < (number y hy).totalRank ↔ NumberBefore x y := by
  have h63 := pow_63
  rw [NumberBefore, lt_iff hx hy, beq_iff hx hy]
  cases hsx : sign x with
  | negative =>
    have hrx := totalRank_of_negative hx hsx
    cases hsy : sign y with
    | negative =>
      have hry := totalRank_of_negative hy hsy
      simp only [Sign.apply, reduceCtorEq, and_false, or_false]
      omega
    | positive =>
      have hry := totalRank_of_positive hy hsy
      simp only [Sign.apply, and_true]
      omega
  | positive =>
    have hrx := totalRank_of_positive hx hsx
    cases hsy : sign y with
    | negative =>
      have hry := totalRank_of_negative hy hsy
      simp only [Sign.apply, reduceCtorEq, and_false, or_false]
      omega
    | positive =>
      have hry := totalRank_of_positive hy hsy
      simp only [Sign.apply, reduceCtorEq, false_and, and_false, or_false]
      omega

/-- Below and above the ranks of all numbers there is room for the payloads. -/
theorem totalRank_number_bounds {x : Float} (hx : x.isNaN = false) :
    Nat.pow 2 52 ≤ (number x hx).totalRank + 1 ∧
      (number x hx).totalRank ≤ Nat.pow 2 63 + 2047 * Nat.pow 2 52 := by
  have h52 := pow_52
  have h63 := pow_63
  have hmag := (packs_unpack hx).le
  cases hs : sign x with
  | negative =>
    have hr := totalRank_of_negative hx hs
    omega
  | positive =>
    have hr := totalRank_of_positive hx hs
    omega

theorem totalRank_notNumber_of_negative {n : NotNumber} (h : n.negative = true) :
    (notNumber n).totalRank + n.payload = Nat.pow 2 52 - 1 := by
  have hlt := n.lt
  have h52 := pow_52
  have h63 := pow_63
  have h64 := pow_64
  simp only [totalRank, bits, h, if_true, h52, h63, h64] at hlt ⊢
  rw [if_neg (by omega)]
  omega

theorem totalRank_notNumber_of_positive {n : NotNumber} (h : n.negative = false) :
    (notNumber n).totalRank = Nat.pow 2 63 + 2047 * Nat.pow 2 52 + n.payload := by
  have hlt := n.lt
  have h52 := pow_52
  have h63 := pow_63
  simp only [totalRank, bits, h, Bool.false_eq_true, if_false, h52, h63] at hlt ⊢
  rw [if_pos (by omega)]
  omega

theorem totalRank_notNumber_lt_iff (m n : NotNumber) :
    (notNumber m).totalRank < (notNumber n).totalRank ↔ NotNumberBefore m n := by
  have hmlt := m.lt
  have hnlt := n.lt
  have hmpos := m.pos
  have hnpos := n.pos
  have h52 := pow_52
  have h63 := pow_63
  unfold NotNumberBefore
  cases hm : m.negative with
  | true =>
    have hrm := totalRank_notNumber_of_negative hm
    cases hn : n.negative with
    | true =>
      have hrn := totalRank_notNumber_of_negative hn
      simp only [Bool.true_eq_false, and_false, true_and, false_and, or_false, false_or]
      omega
    | false =>
      have hrn := totalRank_notNumber_of_positive hn
      simp only [and_self, true_or, iff_true]
      omega
  | false =>
    have hrm := totalRank_notNumber_of_positive hm
    cases hn : n.negative with
    | true =>
      have hrn := totalRank_notNumber_of_negative hn
      simp only [Bool.false_eq_true, Bool.true_eq_false, false_and, and_false, or_self, iff_false]
      omega
    | false =>
      have hrn := totalRank_notNumber_of_positive hn
      simp only [Bool.false_eq_true, false_and, true_and, false_or]
      omega

/-- Ranks are in the total order of doubles, whatever their bits are. -/
theorem totalRank_lt_iff (d e : Double) : d.totalRank < e.totalRank ↔ d.Before e := by
  have h52 := pow_52
  have h63 := pow_63
  cases d with
  | number x hx =>
    cases e with
    | number y hy => exact totalRank_number_lt_iff hx hy
    | notNumber n =>
      have hbounds := totalRank_number_bounds hx
      have hpos := n.pos
      cases hn : n.negative with
      | true =>
        have hrank := totalRank_notNumber_of_negative hn
        simp only [Before, hn, Bool.true_eq_false, iff_false]
        omega
      | false =>
        have hrank := totalRank_notNumber_of_positive hn
        simp only [Before, hn, iff_true]
        omega
  | notNumber m =>
    cases e with
    | number y hy =>
      have hbounds := totalRank_number_bounds hy
      have hpos := m.pos
      cases hm : m.negative with
      | true =>
        have hrank := totalRank_notNumber_of_negative hm
        simp only [Before, hm, iff_true]
        omega
      | false =>
        have hrank := totalRank_notNumber_of_positive hm
        simp only [Before, hm, Bool.false_eq_true, iff_false]
        omega
    | notNumber n => exact totalRank_notNumber_lt_iff m n

end Double

end BlockSketch
