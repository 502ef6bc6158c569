import Mathlib
import LinearProgram.Binary64.Nearest

/-! Every floating-point number is given by its bit pattern, that is by its sign, its exponent and
its mantissa. -/

namespace LinearProgram.Binary64

open Float.Model Float.Model.UnpackedFloat

abbrev Bits := BitVec Format.binary64.numBits

theorem toNat_unpackMantissa (b : Bits) :
    (unpackMantissa b).toNat = b.toNat % 2 ^ 52 := by
  simp [unpackMantissa]

theorem toNat_unpackExponent (b : Bits) :
    (unpackExponent b).toNat = b.toNat / 2 ^ 52 % 2 ^ 11 := by
  simp [unpackExponent, Nat.shiftRight_eq_div_pow]

theorem toBits_lt (x : Float) : x.toBits.toNat < 2 * signBit :=
  x.toBits.toNat_lt

theorem toBits_mod (x : Float) :
    x.toBits.toNat % signBit = biasedExponent x * fractionSize + fraction x := by
  have hx := toBits_lt x
  simp only [biasedExponent, fraction, signBit, fractionSize] at *
  omega

theorem ofBitPattern_fields (x : Float) :
    ofBitPattern (isNegative x) (biasedExponent x * fractionSize + fraction x) = x := by
  have hx := toBits_lt x
  have hbits : (if isNegative x then signBit + x.toBits.toNat % signBit
      else x.toBits.toNat % signBit) = x.toBits.toNat := by
    by_cases h : signBit ≤ x.toBits.toNat
    · rw [if_pos (by simpa [isNegative] using h)]
      simp only [signBit] at *
      omega
    · rw [if_neg (by simpa [isNegative] using h)]
      exact Nat.mod_eq_of_lt (Nat.lt_of_not_le h)
  rw [← toBits_mod, ofBitPattern, hbits, UInt64.ofNat_toNat, Float.ofBits_toBits]

theorem ofBitPattern_infinite {x : Float} (hf : isFinite x = false) (hn : isNaN x = false) :
    ofBitPattern (isNegative x) infinityBits = x := by
  have hlt : biasedExponent x < 2048 := Nat.mod_lt _ (by decide)
  have he : biasedExponent x = 2047 := by
    simp only [isFinite, decide_eq_false_iff_not] at hf
    omega
  have h0 : fraction x = 0 := by simpa [isNaN, he] using hn
  have h := ofBitPattern_fields x
  rwa [he, h0] at h

/-- There is one number that is none. -/
theorem eq_notANumber {x : Float} (h : isNaN x = true) : x = notANumber := by
  simp only [isNaN, Bool.and_eq_true, beq_iff_eq, bne_iff_ne, biasedExponent, fraction,
    fractionSize] at h
  obtain ⟨he, hf⟩ := h
  have hexp (b : Bits) (hb : b.toNat / 2 ^ 52 % 2 ^ 11 = 2047) : unpackExponent b = -1#11 := by
    apply BitVec.eq_of_toNat_eq
    rw [toNat_unpackExponent]
    exact hb
  have hmant (b : Bits) (hb : b.toNat % 2 ^ 52 ≠ 0) : unpackMantissa b ≠ 0#52 := by
    intro h0
    have := congrArg BitVec.toNat h0
    rw [toNat_unpackMantissa] at this
    exact hb this
  have hb : x.toBits.toBitVec = packedNaN Format.binary64 :=
    x.toModel.valid.eq_packedNaN (hexp _ he) (hmant _ hf)
  have hbits : x.toBits = UInt64.ofNat (infinityBits + fractionSize / 2) := by
    rw [← UInt64.toBitVec_inj, hb]
    decide
  rw [← Float.ofBits_toBits x, hbits]
  rfl

theorem isNaN_of_isFinite {x : Float} (hf : isFinite x = true) : isNaN x = false := by
  have hb : biasedExponent x < 2047 := of_decide_eq_true hf
  have hne : biasedExponent x ≠ 2047 := Nat.ne_of_lt hb
  simp [isNaN, hne]

theorem fraction_lt (x : Float) : fraction x < fractionSize :=
  Nat.mod_lt _ (by decide)

theorem mantissa_lt (x : Float) : mantissa x < 2 ^ 53 := by
  have h := fraction_lt x
  simp only [mantissa, fractionSize] at *
  split <;> omega

theorem le_exponent (x : Float) : -1074 ≤ exponent x := by
  simp only [exponent]
  omega

theorem exponent_le {x : Float} (hf : isFinite x = true) : exponent x ≤ 971 := by
  simp only [isFinite, decide_eq_true_eq] at hf
  simp only [exponent]
  omega

theorem le_mantissa {x : Float} (h : -1074 < exponent x) : 2 ^ 52 ≤ mantissa x := by
  have h0 : biasedExponent x ≠ 0 := by
    simp only [exponent] at h
    omega
  rw [mantissa, if_neg h0]
  exact Nat.le_add_right _ _

theorem fields_eq (x : Float) :
    biasedExponent x * fractionSize + fraction x =
      (exponent x + 1074).toNat * fractionSize + mantissa x := by
  unfold exponent mantissa
  split
  · rename_i h0
    rw [h0]
    simp
  · rename_i h0
    have hs : ((max (biasedExponent x) 1 : Nat) - 1075 + 1074 : Int).toNat =
        biasedExponent x - 1 := by omega
    have hle : fractionSize ≤ biasedExponent x * fractionSize :=
      Nat.le_mul_of_pos_left _ (Nat.pos_of_ne_zero h0)
    rw [hs, Nat.sub_mul]
    omega

theorem fields_le {x : Float} (hf : isFinite x = true) :
    biasedExponent x * fractionSize + fraction x ≤ infinityBits := by
  have h := fraction_lt x
  have he : biasedExponent x < 2047 := by simpa [isFinite] using hf
  have := Nat.mul_le_mul_right fractionSize (Nat.succ_le_of_lt he)
  rw [Nat.succ_mul] at this
  simp only [infinityBits]
  omega

end LinearProgram.Binary64
