import LinearProgram.Proofs.BitPattern
import LinearProgram.Proofs.NearestNumber

/-! How floating-point numbers compare. -/

namespace LinearProgram.Binary64

open Float.Model Float.Model.UnpackedFloat

theorem compare_swap (a b : UnpackedFloat) : b.compare a = (a.compare b).map Ordering.swap := by
  have hswap (e e' : Int) (m m' : Nat) :
      (compare e' e).then (compare m' m) = ((compare e e').then (compare m m')).swap := by
    rw [Std.OrientedOrd.eq_swap (a := e'), Std.OrientedOrd.eq_swap (a := m'), Ordering.swap_then]
  cases a with
  | notANumber => cases b <;> rfl
  | infinity s =>
    cases b with
    | infinity t => cases s <;> cases t <;> rfl
    | _ => cases s <;> rfl
  | zero s =>
    cases b with
    | infinity t => cases t <;> rfl
    | finite t => cases t <;> rfl
    | _ => rfl
  | finite s m e hm =>
    cases b with
    | notANumber => rfl
    | infinity t => cases s <;> cases t <;> rfl
    | zero t => cases s <;> rfl
    | finite t m' e' hm' =>
      cases s <;> cases t
      · exact congrArg (fun o => some o.swap) (hswap e e' m m')
      · rfl
      · rfl
      · exact congrArg some (hswap e e' m m')

theorem lt_of_compare {x y : Float}
    (h : x.toModel.unpack.compare y.toModel.unpack = some .lt) : x < y := by
  have hlt : (x.toModel.unpack.compare y.toModel.unpack == some .lt) = true := by rw [h]; rfl
  exact decide_eq_true hlt

theorem not_le_of_lt {x y : Float} (h : x < y) : ¬ y ≤ x := by
  have h : (x.toModel.unpack.compare y.toModel.unpack == some .lt) = true := of_decide_eq_true h
  intro h'
  have h' : (y.toModel.unpack.compare x.toModel.unpack).any (·.isLE) = true := of_decide_eq_true h'
  rw [beq_iff_eq] at h
  rw [compare_swap x.toModel.unpack, h] at h'
  cases h'

theorem beq_self {x : Float} (h : isFinite x = true) : (x == x) = true := by
  rw [Float.beq_self_iff]
  rintro rfl
  exact absurd h (by decide +kernel)

def sign (x : Float) : Sign :=
  if isNegative x then .negative else .positive

def magnitude (x : Float) : Rat :=
  mantissa x * 2 ^ exponent x

theorem toRat_eq (x : Float) : toRat x = if isNegative x then -magnitude x else magnitude x := by
  have h : (mkRat (mantissa x * Nat.pow 2 (exponent x).toNat : Nat)
      (Nat.pow 2 (-exponent x).toNat) : Rat) = magnitude x := by
    have hq := zpow_eq_div 2 (exponent x)
    rw [Nat.cast_ofNat] at hq
    rw [Rat.mkRat_eq_div, magnitude, hq, Int.cast_natCast, Nat.cast_mul, mul_div_assoc]
  rw [toRat, h]

/-- The bits of a number as they are unpacked. -/
def bits (x : Float) : Bits :=
  x.toModel.toBits.toBitVec

theorem unpackExponent_bits (x : Float) :
    (unpackExponent (bits x)).toNat = biasedExponent x :=
  toNat_unpackExponent _

theorem unpackMantissa_bits (x : Float) : (unpackMantissa (bits x)).toNat = fraction x :=
  toNat_unpackMantissa _

theorem unpackSign_bits (x : Float) : Sign.ofBitVec (unpackSign (bits x)) = sign x := by
  have hlt := toBits_lt x
  have hv : (unpackSign (bits x)).toNat = x.toBits.toNat / 2 ^ 63 % 2 := by
    simp [unpackSign, Nat.shiftRight_eq_div_pow]
    rfl
  have hzero : unpackSign (bits x) = 0#1 ↔ ¬ isNegative x = true := by
    rw [← BitVec.toNat_inj, hv, isNegative, decide_eq_true_eq]
    simp only [signBit, BitVec.toNat_ofNat] at *
    omega
  unfold Sign.ofBitVec sign
  by_cases h : isNegative x = true
  · rw [if_pos h, if_neg fun h0 => hzero.1 h0 h]
  · rw [if_neg h, if_pos (hzero.2 h)]

theorem unpack_eq (x : Float) :
    x.toModel.unpack =
      if isFinite x = true then
        if h : mantissa x = 0 then .zero (sign x)
        else .finite (sign x) (mantissa x) (exponent x) (Nat.pos_of_ne_zero h)
      else if isNaN x = true then .notANumber else .infinity (sign x) := by
  have hlt : biasedExponent x < 2048 := Nat.mod_lt _ (by decide)
  have hones : unpackExponent (bits x) = -1#11 ↔ biasedExponent x = 2047 := by
    rw [← BitVec.toNat_inj, unpackExponent_bits]
    rfl
  have hzero : unpackExponent (bits x) = 0#11 ↔ biasedExponent x = 0 := by
    rw [← BitVec.toNat_inj, unpackExponent_bits]
    rfl
  have hfraction : unpackMantissa (bits x) = 0#52 ↔ fraction x = 0 := by
    rw [← BitVec.toNat_inj, unpackMantissa_bits]
    rfl
  change UnpackedFloat.unpack .binary64 (bits x) = _
  unfold UnpackedFloat.unpack
  simp only [unpackSign_bits]
  -- the exponents of ones and of zeros alone stand for something else than an exponent
  by_cases h1 : biasedExponent x = 2047
  · have hf : ¬ isFinite x = true := by simp [isFinite, h1]
    rw [if_pos (hones.2 h1), if_neg hf]
    by_cases h0 : fraction x = 0
    · rw [if_pos (hfraction.2 h0), if_neg (by simp [isNaN, h0])]
    · rw [if_neg (fun h => h0 (hfraction.1 h)), if_pos (by simp [isNaN, h0, h1])]
  · have hf : isFinite x = true := by
      rw [isFinite, decide_eq_true_eq]
      omega
    rw [if_neg (fun h => h1 (hones.1 h)), if_pos hf]
    by_cases hs : biasedExponent x = 0
    · have hm : mantissa x = fraction x := if_pos hs
      rw [if_pos (hzero.2 hs)]
      by_cases h0 : fraction x = 0
      · rw [dif_pos (hfraction.2 h0), dif_pos (hm.trans h0)]
      · rw [dif_neg (fun h => h0 (hfraction.1 h)), dif_neg (fun h => h0 (hm.symm.trans h))]
        congr 1
        · rw [unpackMantissa_bits, hm]
        · rw [unpackExponent_bits, hs, exponent, hs]
          rfl
    · have hm : mantissa x = fractionSize + fraction x := if_neg hs
      rw [if_neg (fun h => hs (hzero.1 h)), dif_neg (by rw [hm]; simp [fractionSize])]
      congr 1
      · rw [hm, BitVec.toNat_append, unpackMantissa_bits]
        exact (Nat.shiftLeft_add_eq_or_of_lt (fraction_lt x) 1).symm
      · rw [unpackExponent_bits, exponent]
        change (biasedExponent x : Int) - 1075 = _
        omega

theorem unpack_zero {x : Float} (hf : isFinite x = true) (hm : mantissa x = 0) :
    x.toModel.unpack = .zero (sign x) := by
  rw [unpack_eq, if_pos hf, dif_pos hm]

theorem unpack_finite {x : Float} (hf : isFinite x = true) (hm : mantissa x ≠ 0) :
    x.toModel.unpack =
      .finite (sign x) (mantissa x) (exponent x) (Nat.pos_of_ne_zero hm) := by
  rw [unpack_eq, if_pos hf, dif_neg hm]

theorem unpack_infinite {x : Float} (hf : isFinite x = false) (hn : isNaN x = false) :
    x.toModel.unpack = .infinity (sign x) := by
  rw [unpack_eq, hf, hn]
  rfl

theorem magnitude_nonneg (x : Float) : 0 ≤ magnitude x := by
  unfold magnitude
  positivity

theorem magnitude_lt_of_exponent_lt {x y : Float} (h : exponent x < exponent y) :
    magnitude x < magnitude y := by
  have hx : mantissa x < 2 ^ 53 := mantissa_lt x
  have hy : 2 ^ 52 ≤ mantissa y := le_mantissa ((le_exponent x).trans_lt h)
  calc magnitude x < 2 ^ 53 * 2 ^ exponent x := by
        unfold magnitude
        gcongr
        exact_mod_cast hx
    _ = 2 ^ 52 * 2 ^ (exponent x + 1) := by
        rw [zpow_add_one₀ (by norm_num)]
        ring
    _ ≤ magnitude y := by
        unfold magnitude
        gcongr
        · exact_mod_cast hy
        · norm_num
        · omega

/-- The exponent decides, and between equal exponents the mantissa. -/
theorem compare_of_magnitude_lt {x y : Float} (h : magnitude x < magnitude y) :
    (compare (exponent x) (exponent y)).then (compare (mantissa x) (mantissa y)) = .lt := by
  rcases lt_trichotomy (exponent x) (exponent y) with he | he | he
  · rw [compare_lt_iff_lt.2 he]
    rfl
  · have hpow : (0 : Rat) < 2 ^ exponent y := by positivity
    have hm : mantissa x < mantissa y := by
      rw [magnitude, magnitude, he] at h
      exact_mod_cast lt_of_mul_lt_mul_right h hpow.le
    rw [compare_eq_iff_eq.2 he, compare_lt_iff_lt.2 hm]
    rfl
  · exact absurd h (magnitude_lt_of_exponent_lt he).asymm

/-- A magnitude is written in one way only. -/
theorem magnitude_inj {x y : Float} (h : magnitude x = magnitude y) :
    exponent x = exponent y ∧ mantissa x = mantissa y := by
  have he : exponent x = exponent y := by
    rcases lt_trichotomy (exponent x) (exponent y) with he | he | he
    · exact absurd h (magnitude_lt_of_exponent_lt he).ne
    · exact he
    · exact absurd h (magnitude_lt_of_exponent_lt he).ne'
  have hpow : (2 : Rat) ^ exponent y ≠ 0 := by positivity
  rw [magnitude, magnitude, he] at h
  exact ⟨he, by exact_mod_cast mul_right_cancel₀ hpow h⟩

theorem toRat_of_mantissa_eq_zero {x : Float} (h : mantissa x = 0) : toRat x = 0 := by
  rw [toRat_eq, magnitude, h, Nat.cast_zero, zero_mul, neg_zero, ite_self]

theorem isNegative_of_toRat_neg {x : Float} (h : toRat x < 0) : isNegative x = true := by
  by_contra hn
  rw [toRat_eq, if_neg hn] at h
  exact absurd h (not_lt.2 (magnitude_nonneg x))

theorem isNegative_of_toRat_pos {x : Float} (h : 0 < toRat x) : isNegative x = false := by
  by_contra hn
  rw [Bool.not_eq_false] at hn
  rw [toRat_eq, if_pos hn, neg_pos] at h
  exact absurd h (not_lt.2 (magnitude_nonneg x))

/-- Finite numbers compare as the rationals that they stand for. -/
theorem lt_of_toRat_lt {x y : Float} (hx : isFinite x = true) (hy : isFinite y = true)
    (h : toRat x < toRat y) : x < y := by
  apply lt_of_compare
  -- zeros are unpacked to a form of their own
  by_cases hxm : mantissa x = 0
  · rw [toRat_of_mantissa_eq_zero hxm] at h
    have hym : mantissa y ≠ 0 := fun h0 => h.ne' (toRat_of_mantissa_eq_zero h0)
    rw [unpack_zero hx hxm, unpack_finite hy hym, sign, sign, isNegative_of_toRat_pos h]
    rfl
  · by_cases hym : mantissa y = 0
    · rw [toRat_of_mantissa_eq_zero hym] at h
      rw [unpack_finite hx hxm, unpack_zero hy hym, sign, sign, isNegative_of_toRat_neg h]
      rfl
    · rw [toRat_eq, toRat_eq] at h
      rw [unpack_finite hx hxm, unpack_finite hy hym, sign, sign]
      have hx0 := magnitude_nonneg x
      have hy0 := magnitude_nonneg y
      cases hxn : isNegative x <;> cases hyn : isNegative y <;>
        simp only [hxn, hyn, if_true, Bool.false_eq_true, if_false] at h ⊢
      · exact congrArg some (compare_of_magnitude_lt h)
      · linarith
      · rfl
      · have hswap := compare_of_magnitude_lt (neg_lt_neg_iff.1 h)
        rw [Std.OrientedOrd.eq_swap (a := exponent y), Std.OrientedOrd.eq_swap (a := mantissa y),
          ← Ordering.swap_then] at hswap
        exact congrArg some hswap

theorem finite_lt_infinite {x y : Float} (hx : isFinite x = true) (hy : isFinite y = false)
    (hn : isNaN y = false) (hs : isNegative y = false) : x < y := by
  apply lt_of_compare
  rw [unpack_infinite hy hn, sign, hs]
  by_cases hm : mantissa x = 0
  · rw [unpack_zero hx hm]
    rfl
  · rw [unpack_finite hx hm]
    rfl

theorem infinite_lt_finite {x y : Float} (hx : isFinite x = false) (hn : isNaN x = false)
    (hs : isNegative x = true) (hy : isFinite y = true) : x < y := by
  apply lt_of_compare
  rw [unpack_infinite hx hn, sign, hs]
  by_cases hm : mantissa y = 0
  · rw [unpack_zero hy hm]
    rfl
  · rw [unpack_finite hy hm]
    rfl

theorem infinite_lt_infinite {x y : Float} (hx : isFinite x = false) (hxn : isNaN x = false)
    (hxs : isNegative x = true) (hy : isFinite y = false) (hyn : isNaN y = false)
    (hys : isNegative y = false) : x < y := by
  apply lt_of_compare
  rw [unpack_infinite hx hxn, unpack_infinite hy hyn, sign, sign, hxs, hys]
  rfl

end LinearProgram.Binary64
