import LinearProgram.Proofs.Counting
import LinearProgram.Proofs.NumberLine

/-! Reciprocals in floating point. There are numbers down to 2 to the power -1074, but the
reciprocal of a number is finite only where that one is above 2 to the power -1024. -/

namespace LinearProgram.Binary64

open Float.Model (Format totalExponent UnpackedFloat)
open Float.Model.UnpackedFloat (Accuracy ExtendedMantissa Sign accuracyOfFraction divCore
  packComponents packedInfinity roundWithAccuracy shiftToExponent shiftToTargetExponent
  unpackExponent unpackExponent_packComponents)

theorem isFinite_iff_unpackExponent {x : Float} :
    isFinite x = true ↔ unpackExponent (bits x) ≠ -1#11 := by
  have hlt : biasedExponent x < 2048 := Nat.mod_lt _ (by decide)
  have hones : (-1#11 : BitVec 11).toNat = 2047 := rfl
  rw [Ne, ← BitVec.toNat_inj, unpackExponent_bits, hones, isFinite, decide_eq_true_eq]
  omega

theorem isFinite_pack_iff {s : Sign} {m : Nat} {e : Int} {hm : 0 < m} :
    isFinite (.ofModel (.pack (.finite s m e hm))) = true ↔ e ≤ 971 := by
  have hbits : bits (.ofModel (.pack (.finite s m e hm))) =
      UnpackedFloat.pack .binary64 (.finite s m e hm) := rfl
  have hb : (e + Format.binary64.exponentBias + (52 : Nat)).toNat = (e + 1075).toNat := by
    simp only [Format.exponentBias]
    omega
  rw [isFinite_iff_unpackExponent, hbits, UnpackedFloat.pack]
  simp only [hb]
  by_cases he : 2 ^ 11 ≤ (e + 1075).toNat + 1
  · rw [if_pos he, packedInfinity, unpackExponent_packComponents]
    exact iff_of_false (fun h => h rfl) (by omega)
  · have hfits : e ≤ 971 := by omega
    rw [if_neg he]
    split
    · rw [unpackExponent_packComponents, Ne, ← BitVec.toNat_inj, BitVec.toNat_ofNat]
      refine iff_of_true ?_ hfits
      have hones : (-1#11 : BitVec 11).toNat = 2047 := rfl
      rw [hones]
      omega
    · rw [unpackExponent_packComponents]
      exact iff_of_true (by decide) hfits

section Rounding

variable {q : Nat} {t : Int} {acc : Accuracy} {s : Sign}

theorem roundedMantissa_ofMantissaAndAccuracy (q : Nat) (acc : Accuracy) :
    (ExtendedMantissa.ofMantissaAndAccuracy q acc).roundedMantissa = acc.roundToNearestEven q := by
  cases acc with
  | exact => rfl
  | inexact o => cases o <;> rfl

theorem roundToNearestEven_bounds (q : Nat) (acc : Accuracy) :
    q ≤ acc.roundToNearestEven q ∧ acc.roundToNearestEven q ≤ q + 1 := by
  unfold Accuracy.roundToNearestEven
  split <;> omega

theorem shiftToTargetExponent_of_lt (hq : q < 2 ^ 53) (ht : -1074 ≤ t) (acc : Accuracy) :
    shiftToTargetExponent .binary64 q t acc = (.ofMantissaAndAccuracy q acc, t) := by
  have hlog : q.log2 < 53 := by
    rcases Nat.eq_zero_or_pos q with rfl | h0
    · decide
    · exact (Nat.log2_lt h0.ne').2 hq
  have htarget : (Format.binary64.targetExponent (totalExponent q t) - t).toNat = 0 := by
    simp only [Format.targetExponent, totalExponent, Format.mantissaBits, Format.minExponent]
    omega
  unfold shiftToTargetExponent shiftToExponent
  simp only [htarget, Nat.cast_zero, Int.add_zero]
  rfl

theorem isFull_two_pow : IsFull (2 ^ 52) :=
  ⟨by decide, by decide⟩

theorem shiftToTargetExponent_two_pow (ht : -1074 ≤ t) :
    shiftToTargetExponent .binary64 (2 ^ 53) t .exact = (⟨2 ^ 52, false, false⟩, t + 1) :=
  isFull_two_pow.shiftToTargetExponent_eq 1 (by omega)

/-- A mantissa that is rounded up to its end takes one digit less. -/
theorem roundWithAccuracy_of_carry (hq : q < 2 ^ 53) (ht : -1074 ≤ t)
    (hr : acc.roundToNearestEven q = 2 ^ 53) :
    roundWithAccuracy .binary64 s q t acc = .finite s (2 ^ 52) (t + 1) isFull_two_pow.1 := by
  unfold roundWithAccuracy
  simp only [shiftToTargetExponent_of_lt hq ht, roundedMantissa_ofMantissaAndAccuracy, hr,
    shiftToTargetExponent_two_pow ht]
  rfl

theorem roundWithAccuracy_of_lt (h0 : 0 < q) (hq : q < 2 ^ 53) (ht : -1074 ≤ t)
    (hr : acc.roundToNearestEven q < 2 ^ 53) :
    roundWithAccuracy .binary64 s q t acc = .finite s (acc.roundToNearestEven q) t
      (h0.trans_le (roundToNearestEven_bounds q acc).1) := by
  have hpos := h0.trans_le (roundToNearestEven_bounds q acc).1
  unfold roundWithAccuracy
  simp only [shiftToTargetExponent_of_lt hq ht, roundedMantissa_ofMantissaAndAccuracy,
    shiftToTargetExponent_of_lt hr ht]
  exact dif_neg hpos.ne'

theorem roundWithAccuracy_two_pow (ht : -1074 ≤ t) :
    roundWithAccuracy .binary64 s (2 ^ 53) t .exact =
      .finite s (2 ^ 52) (t + 1) isFull_two_pow.1 := by
  have hagain :=
    shiftToTargetExponent_of_lt (q := 2 ^ 52) (t := t + 1) (by decide) (by omega) .exact
  have hrounded : (⟨2 ^ 52, false, false⟩ : ExtendedMantissa).roundedMantissa = 2 ^ 52 := rfl
  unfold roundWithAccuracy
  simp only [shiftToTargetExponent_two_pow ht, hrounded, hagain]
  rfl

end Rounding

section Quotients

variable {m : Nat} {e : Int}

/-- How far the mantissa of one is shifted before it is divided. -/
def reciprocalShift (m : Nat) (e : Int) : Nat :=
  min (m.log2 + 1) (1022 - e).toNat

theorem divCore_one (he : e ≤ 971) :
    divCore .binary64 (2 ^ 52) (-52) m e =
      (2 ^ (52 + reciprocalShift m e) / m, -52 - e - reciprocalShift m e,
        accuracyOfFraction (2 ^ (52 + reciprocalShift m e) % m) m) := by
  have hone : totalExponent (2 ^ 52) (-52) = 1 := by
    rw [totalExponent, isFull_two_pow.2]
    decide
  have htarget : min (-52 - e)
      (Format.binary64.targetExponent (totalExponent (2 ^ 52) (-52) - totalExponent m e)) =
      -52 - e - reciprocalShift m e := by
    rw [hone]
    simp only [Format.targetExponent, totalExponent, Format.mantissaBits, Format.minExponent,
      reciprocalShift]
    omega
  have hshift : (-52 - e - (-52 - e - reciprocalShift m e : Int)).toNat = reciprocalShift m e := by
    omega
  unfold divCore
  simp only [htarget, hshift, Nat.shiftLeft_eq, ← pow_add]

/-- A quotient of more than 53 binary digits is one by a power of two. -/
theorem quotient_cases (hm : 0 < m) {j : Nat} (hj : j ≤ m.log2 + 1) :
    2 ^ (52 + j) / m < 2 ^ 53 ∨ m = 2 ^ m.log2 ∧ j = m.log2 + 1 := by
  by_cases h : m = 2 ^ m.log2 ∧ j = m.log2 + 1
  · exact .inr h
  · left
    have hlog := Nat.log2_self_le hm.ne'
    rw [Nat.div_lt_iff_lt_mul hm]
    rcases Nat.eq_or_lt_of_le hj with hj | hj
    · have hlt : 2 ^ m.log2 < m := lt_of_le_of_ne hlog fun hpow => h ⟨hpow.symm, hj⟩
      calc 2 ^ (52 + j) = 2 ^ 53 * 2 ^ m.log2 := by rw [hj, ← pow_add]; congr 1; omega
        _ < 2 ^ 53 * m := Nat.mul_lt_mul_of_pos_left hlt (by decide)
    · calc 2 ^ (52 + j) < 2 ^ (53 + m.log2) := Nat.pow_lt_pow_right (by decide) (by omega)
        _ = 2 ^ 53 * 2 ^ m.log2 := pow_add ..
        _ ≤ 2 ^ 53 * m := Nat.mul_le_mul_left _ hlog

theorem quotient_pos (hm : m < 2 ^ 53) (h0 : 0 < m) (he : e ≤ 971) :
    0 < 2 ^ (52 + reciprocalShift m e) / m := by
  have hlog : m < 2 ^ (m.log2 + 1) := Nat.lt_log2_self
  have hle : m ≤ 2 ^ (52 + reciprocalShift m e) := by
    unfold reciprocalShift
    rcases Nat.le_total (m.log2 + 1) (1022 - e).toNat with h | h
    · rw [min_eq_left h]
      exact hlog.le.trans (Nat.pow_le_pow_right (by decide) (by omega))
    · rw [min_eq_right h]
      exact hm.le.trans (Nat.pow_le_pow_right (by decide) (by omega))
  exact Nat.div_pos hle h0

end Quotients

section Overflow

variable {k : Float}

theorem one_div_eq (hf : isFinite k = true) (h0 : mantissa k ≠ 0) :
    1 / k = .ofModel (.pack (roundWithAccuracy .binary64 (.positive / sign k)
      (2 ^ (52 + reciprocalShift (mantissa k) (exponent k)) / mantissa k)
      (-52 - exponent k - reciprocalShift (mantissa k) (exponent k))
      (accuracyOfFraction
        (2 ^ (52 + reciprocalShift (mantissa k) (exponent k)) % mantissa k) (mantissa k)))) := by
  have hone : (1 : Float).toModel.unpack = .finite .positive (2 ^ 52) (-52) (by decide) := rfl
  show Float.ofModel (.pack (UnpackedFloat.div .binary64 _ _)) = _
  rw [hone, unpack_finite hf h0]
  simp only [UnpackedFloat.div, divCore_one (exponent_le hf)]

/-- Next to the overflow the quotient is far from a carry. -/
theorem quotient_add_one_lt {m : Nat} (hm : 2 ^ 50 ≤ m) (hlt : 2 ^ (52 + 51) / m < 2 ^ 53) :
    2 ^ 50 < m ∧ 2 ^ (52 + 51) / m + 1 < 2 ^ 53 := by
  rcases Nat.eq_or_lt_of_le hm with rfl | hm
  · exact absurd hlt (by decide)
  · have hle : 2 ^ (52 + 51) / m ≤ 2 ^ (52 + 51) / (2 ^ 50 + 1) :=
      Nat.div_le_div_left hm (by decide)
    have hnum : 2 ^ (52 + 51) / (2 ^ 50 + 1) + 1 < 2 ^ 53 := by decide
    exact ⟨hm, by omega⟩

theorem exists_one_div_eq (hf : isFinite k = true) (h0 : mantissa k ≠ 0) :
    ∃ s m e, ∃ hm : 0 < m, 1 / k = .ofModel (.pack (.finite s m e hm)) ∧
      (e ≤ 971 ↔ 2 ^ 50 < mantissa k ∨ -1074 < exponent k) := by
  have hpos := Nat.pos_of_ne_zero h0
  have hmax := mantissa_lt k
  have hle := exponent_le hf
  have hge := le_exponent k
  have hfull : -1074 < exponent k → 2 ^ 52 ≤ mantissa k := le_mantissa
  have h50 : 50 ≤ (mantissa k).log2 ↔ 2 ^ 50 ≤ mantissa k := Nat.le_log2 h0
  have h51 : 51 ≤ (mantissa k).log2 ↔ 2 ^ 51 ≤ mantissa k := Nat.le_log2 h0
  have h52 : 52 ≤ (mantissa k).log2 ↔ 2 ^ 52 ≤ mantissa k := Nat.le_log2 h0
  have h53 : (mantissa k).log2 < 53 ↔ mantissa k < 2 ^ 53 := Nat.log2_lt h0
  have hquotient := quotient_pos hmax hpos hle
  have hdiv := one_div_eq hf h0
  have hj : reciprocalShift (mantissa k) (exponent k) =
      min ((mantissa k).log2 + 1) (1022 - exponent k).toNat := rfl
  generalize reciprocalShift (mantissa k) (exponent k) = j at *
  rcases quotient_cases hpos (j := j) (by omega) with hlt | ⟨hpow, hfar⟩
  · have hlast : j = 51 → 2 ^ 50 ≤ mantissa k →
        2 ^ 50 < mantissa k ∧ 2 ^ (52 + j) / mantissa k + 1 < 2 ^ 53 := by
      rintro rfl hm
      exact quotient_add_one_lt hm hlt
    generalize 2 ^ (52 + j) / mantissa k = q at *
    generalize accuracyOfFraction (2 ^ (52 + j) % mantissa k) (mantissa k) = acc at *
    have hbounds := roundToNearestEven_bounds q acc
    -- where the exponent is at its limit, there is room for no carry
    by_cases hr : acc.roundToNearestEven q < 2 ^ 53
    · rw [roundWithAccuracy_of_lt hquotient hlt (by omega) hr] at hdiv
      exact ⟨_, _, _, _, hdiv, by omega⟩
    · rw [roundWithAccuracy_of_carry hlt (by omega) (by omega)] at hdiv
      exact ⟨_, _, _, _, hdiv, by omega⟩
  · have hlast : (mantissa k).log2 = 50 → mantissa k = 2 ^ 50 := fun h => by rw [hpow, h]
    have hquot : 2 ^ (52 + j) = 2 ^ 53 * mantissa k := by
      calc 2 ^ (52 + j) = 2 ^ 53 * 2 ^ (mantissa k).log2 := by rw [hfar, ← pow_add]; congr 1; omega
        _ = 2 ^ 53 * mantissa k := by rw [← hpow]
    have hexact : accuracyOfFraction 0 (mantissa k) = .exact := rfl
    rw [hquot, Nat.mul_div_cancel _ hpos, Nat.mul_mod_left, hexact,
      roundWithAccuracy_two_pow (by omega)] at hdiv
    exact ⟨_, _, _, _, hdiv, by omega⟩

theorem abs_toRat (x : Float) : |toRat x| = magnitude x := by
  rw [toRat_eq]
  split
  · rw [abs_neg, abs_of_nonneg (magnitude_nonneg x)]
  · rw [abs_of_nonneg (magnitude_nonneg x)]

theorem lt_magnitude_iff (k : Float) :
    (2 : Rat) ^ (-1024 : Int) < magnitude k ↔ 2 ^ 50 < mantissa k ∨ -1074 < exponent k := by
  have hsplit : (2 : Rat) ^ (-1024 : Int) = (2 ^ 50 : Nat) * 2 ^ (-1074 : Int) := by
    rw [Nat.cast_pow, Nat.cast_ofNat, ← zpow_natCast, ← zpow_add₀ (by norm_num)]
    norm_num
  rcases Int.lt_or_eq_of_le (le_exponent k) with he | he
  · have hm : 2 ^ 50 < mantissa k := lt_of_lt_of_le (by decide) (le_mantissa he)
    refine iff_of_true ?_ (.inr he)
    calc (2 : Rat) ^ (-1024 : Int) = (2 ^ 50 : Nat) * 2 ^ (-1074 : Int) := hsplit
      _ < mantissa k * 2 ^ (-1074 : Int) := by gcongr
      _ ≤ magnitude k := by unfold magnitude; gcongr; norm_num
  · rw [magnitude, ← he, hsplit, mul_lt_mul_iff_left₀ (by positivity)]
    simp

/-- The reciprocals of the numbers next to zero overflow. -/
theorem isFinite_one_div_iff (hf : isFinite k = true) (h0 : mantissa k ≠ 0) :
    isFinite (1 / k) = true ↔ (2 : Rat) ^ (-1024 : Int) < |toRat k| := by
  obtain ⟨s, m, e, hm, hk, he⟩ := exists_one_div_eq hf h0
  rw [hk, isFinite_pack_iff, he, abs_toRat, lt_magnitude_iff]

theorem mantissa_ne_zero (hf : isFinite k = true) (h : (k == 0) = false) : mantissa k ≠ 0 := by
  intro h0
  have hplace : place k = place 0 := by
    rw [place_of_isFinite hf, place_of_isFinite (by decide +kernel), toRat_of_mantissa_eq_zero h0,
      toRat_of_mantissa_eq_zero (by decide +kernel)]
  have hbeq : (k == 0) = true := (beq_iff (isNaN_of_isFinite hf) (by decide +kernel)).2 hplace
  rw [h] at hbeq
  cases hbeq

theorem exists_unpack_of_beq_zero {x : Float} (h : (x == 0) = true) :
    ∃ s, x.toModel.unpack = .zero s := by
  have h : UnpackedFloat.beq x.toModel.unpack (.zero .positive) = true := h
  cases hx : x.toModel.unpack with
  | zero s => exact ⟨s, rfl⟩
  | notANumber =>
    rw [hx] at h
    cases h
  | infinity s | finite s =>
    rw [hx] at h
    cases s <;> cases h

theorem isFinite_of_beq_zero {x : Float} (h : (x == 0) = true) : isFinite x = true := by
  obtain ⟨s, hs⟩ := exists_unpack_of_beq_zero h
  rw [← ofModel_pack_unpack x, hs]
  cases s <;> decide +kernel

theorem zero_add_beq_zero (x : Float) : (0 + x == 0) = (x == 0) := by
  cases hx : x == 0 with
  | false => rw [zero_add_of_ne_zero hx, hx]
  | true =>
    obtain ⟨s, hs⟩ := exists_unpack_of_beq_zero hx
    rw [← ofModel_pack_unpack x, hs]
    cases s <;> decide +kernel

end Overflow

end LinearProgram.Binary64
