import LinearProgram.Proofs.NumberOrder

/-! The numbers that are not NaN lie on one line, the rationals with an infinity at either end. They
compare as their places there do. -/

namespace LinearProgram.Binary64

open Float.Model Float.Model.UnpackedFloat

def place (x : Float) : WithBot (WithTop Rat) :=
  if isFinite x then ((toRat x : WithTop Rat) : WithBot (WithTop Rat))
  else if isNegative x then ⊥ else ⊤

theorem place_of_isFinite {x : Float} (h : isFinite x = true) :
    place x = ((toRat x : WithTop Rat) : WithBot (WithTop Rat)) :=
  if_pos h

theorem place_of_isNegative {x : Float} (hf : isFinite x = false) (hs : isNegative x = true) :
    place x = ⊥ := by
  rw [place, hf, hs]
  rfl

theorem place_of_not_isNegative {x : Float} (hf : isFinite x = false)
    (hs : isNegative x = false) : place x = ⊤ := by
  rw [place, hf, hs]
  rfl

theorem isFinite_iff_place {x : Float} :
    isFinite x = true ↔ place x ≠ ⊥ ∧ place x ≠ ⊤ := by
  cases hf : isFinite x with
  | true =>
    rw [place_of_isFinite hf]
    simp
  | false => cases hs : isNegative x <;> simp [place, hf, hs]

theorem isNegative_iff_place {x : Float} (hf : isFinite x = false) :
    isNegative x = true ↔ place x = ⊥ := by
  cases hs : isNegative x <;> simp [place, hf, hs]

theorem compare_of_lt {x y : Float} (h : x < y) :
    x.toModel.unpack.compare y.toModel.unpack = some .lt :=
  beq_iff_eq.1 (of_decide_eq_true h)

variable {x y z : Float}

theorem lt_of_place_lt (hx : isNaN x = false) (hy : isNaN y = false) (h : place x < place y) :
    x < y := by
  cases hxf : isFinite x with
  | true =>
    rw [place_of_isFinite hxf] at h
    cases hyf : isFinite y with
    | true =>
      rw [place_of_isFinite hyf] at h
      exact lt_of_toRat_lt hxf hyf (by exact_mod_cast h)
    | false =>
      cases hs : isNegative y with
      | true =>
        rw [place_of_isNegative hyf hs] at h
        exact absurd h not_lt_bot
      | false => exact finite_lt_infinite hxf hyf hy hs
  | false =>
    cases hs : isNegative x with
    | false =>
      rw [place_of_not_isNegative hxf hs] at h
      exact absurd h not_top_lt
    | true =>
      cases hyf : isFinite y with
      | true => exact infinite_lt_finite hxf hx hs hyf
      | false =>
        cases hys : isNegative y with
        | true =>
          rw [place_of_isNegative hyf hys] at h
          exact absurd h not_lt_bot
        | false => exact infinite_lt_infinite hxf hx hs hyf hy hys

theorem compare_self {a : UnpackedFloat} (h : a ≠ .notANumber) : a.compare a = some .eq := by
  cases a with
  | notANumber => exact absurd rfl h
  | infinity s => cases s <;> rfl
  | zero s => rfl
  | finite s m e hm => cases s <;> simp [UnpackedFloat.compare]

theorem mantissa_eq_zero (h : toRat x = 0) : mantissa x = 0 := by
  have hm : magnitude x = 0 := by
    rw [toRat_eq] at h
    split at h
    · exact neg_eq_zero.1 h
    · exact h
  have hpow : (2 : Rat) ^ exponent x ≠ 0 := by positivity
  exact_mod_cast (mul_eq_zero.1 hm).resolve_right hpow

/-- Apart from the sign of a zero, a rational is written in one way only. -/
theorem compare_of_toRat_eq (hx : isFinite x = true) (hy : isFinite y = true)
    (h : toRat x = toRat y) : x.toModel.unpack.compare y.toModel.unpack = some .eq := by
  by_cases hxm : mantissa x = 0
  · have hym : mantissa y = 0 := mantissa_eq_zero (h ▸ toRat_of_mantissa_eq_zero hxm)
    rw [unpack_zero hx hxm, unpack_zero hy hym]
    rfl
  · have hym : mantissa y ≠ 0 := fun h0 =>
      hxm (mantissa_eq_zero (h.trans (toRat_of_mantissa_eq_zero h0)))
    have hxr : toRat x ≠ 0 := fun h0 => hxm (mantissa_eq_zero h0)
    have hs : isNegative x = isNegative y := by
      rcases lt_or_gt_of_ne hxr with hneg | hpos
      · rw [isNegative_of_toRat_neg hneg, isNegative_of_toRat_neg (h ▸ hneg)]
      · rw [isNegative_of_toRat_pos hpos, isNegative_of_toRat_pos (h ▸ hpos)]
    have hmagnitude : magnitude x = magnitude y := by
      rw [toRat_eq, toRat_eq, hs] at h
      split at h
      · exact neg_injective h
      · exact h
    obtain ⟨he, hm⟩ := magnitude_inj hmagnitude
    have hunpack : x.toModel.unpack = y.toModel.unpack := by
      rw [unpack_finite hx hxm, unpack_finite hy hym]
      simp only [sign, he, hm, hs]
    have hnumber : y.toModel.unpack ≠ .notANumber := by
      rw [unpack_finite hy hym]
      intro h0
      cases h0
    rw [hunpack, compare_self hnumber]

theorem compare_of_place_eq (hx : isNaN x = false) (hy : isNaN y = false)
    (h : place x = place y) : x.toModel.unpack.compare y.toModel.unpack = some .eq := by
  have hfinite : isFinite x = isFinite y := by
    rw [Bool.eq_iff_iff, isFinite_iff_place, isFinite_iff_place, h]
  cases hxf : isFinite x with
  | true =>
    have hyf := hfinite ▸ hxf
    rw [place_of_isFinite hxf, place_of_isFinite hyf] at h
    exact compare_of_toRat_eq hxf hyf (by exact_mod_cast h)
  | false =>
    have hyf := hfinite ▸ hxf
    have hs : isNegative x = isNegative y := by
      rw [Bool.eq_iff_iff, isNegative_iff_place hxf, isNegative_iff_place hyf, h]
    rw [unpack_infinite hxf hx, unpack_infinite hyf hy, sign, sign, hs]
    apply compare_self
    intro h0
    cases h0

theorem compare_eq_cmp (hx : isNaN x = false) (hy : isNaN y = false) :
    x.toModel.unpack.compare y.toModel.unpack = some (cmp (place x) (place y)) := by
  rcases lt_trichotomy (place x) (place y) with h | h | h
  · rw [(cmp_eq_lt_iff _ _).2 h, compare_of_lt (lt_of_place_lt hx hy h)]
  · rw [(cmp_eq_eq_iff _ _).2 h, compare_of_place_eq hx hy h]
  · rw [(cmp_eq_gt_iff _ _).2 h, compare_swap, compare_of_lt (lt_of_place_lt hy hx h)]
    rfl

theorem lt_iff (hx : isNaN x = false) (hy : isNaN y = false) : x < y ↔ place x < place y := by
  refine ⟨fun h => ?_, lt_of_place_lt hx hy⟩
  have hc := compare_of_lt h
  rw [compare_eq_cmp hx hy] at hc
  exact (cmp_eq_lt_iff _ _).1 (Option.some.inj hc)

theorem le_iff (hx : isNaN x = false) (hy : isNaN y = false) : x ≤ y ↔ place x ≤ place y := by
  have hle : x ≤ y ↔ (x.toModel.unpack.compare y.toModel.unpack).any (·.isLE) = true :=
    decide_eq_true_iff
  rw [hle, compare_eq_cmp hx hy, ← not_lt, ← cmp_eq_gt_iff]
  cases cmp (place x) (place y) <;> decide

theorem beq_iff (hx : isNaN x = false) (hy : isNaN y = false) :
    (x == y) = true ↔ place x = place y := by
  have hbeq : (x == y) = (x.toModel.unpack.compare y.toModel.unpack == some .eq) := rfl
  rw [hbeq, compare_eq_cmp hx hy, ← cmp_eq_eq_iff (place x)]
  cases cmp (place x) (place y) <;> decide

/-- NaN is equal to nothing. -/
theorem isNaN_of_beq (h : (x == y) = true) : isNaN x = false := by
  by_contra hx
  have hnan : isNaN x = true := Bool.eq_true_of_not_eq_false hx
  have hfinite : ¬ isFinite x = true := fun hf => hx (isNaN_of_isFinite hf)
  have hunpack : x.toModel.unpack = .notANumber := by
    rw [unpack_eq, if_neg hfinite, if_pos hnan]
  change (x.toModel.unpack.compare y.toModel.unpack == some .eq) = true at h
  rw [hunpack] at h
  cases h

/-- Nothing is equal to an infinity but itself. -/
theorem eq_of_beq_infinite (hy : isNaN y = false) (hf : isFinite y = false)
    (h : (x == y) = true) : x = y := by
  have hx : isNaN x = false := isNaN_of_beq h
  have hplace : place x = place y := (beq_iff hx hy).1 h
  have hfx : isFinite x = false := by
    rw [← Bool.not_eq_true, isFinite_iff_place, hplace, ← isFinite_iff_place, hf]
    exact Bool.false_ne_true
  have hsign : isNegative x = isNegative y := by
    rw [Bool.eq_iff_iff, isNegative_iff_place hfx, hplace, isNegative_iff_place hf]
  rw [← ofBitPattern_infinite hfx hx, hsign, ofBitPattern_infinite hf hy]

theorem exists_magnitude_eq (h : isIntegral x = true) : ∃ n : Nat, magnitude x = n := by
  obtain ⟨-, hdvd⟩ := (Bool.and_eq_true _ _).mp h
  have hdvd : 2 ^ (-exponent x).toNat ∣ mantissa x := Nat.dvd_of_mod_eq_zero (beq_iff_eq.1 hdvd)
  rcases le_total 0 (exponent x) with he | he
  · refine ⟨mantissa x * 2 ^ (exponent x).toNat, ?_⟩
    rw [magnitude, Nat.cast_mul, Nat.cast_pow, Nat.cast_ofNat, ← zpow_natCast,
      Int.toNat_of_nonneg he]
  · obtain ⟨n, hn⟩ := hdvd
    refine ⟨n, ?_⟩
    have hpow : (2 : Rat) ^ (-exponent x).toNat * 2 ^ exponent x = 1 := by
      rw [← zpow_natCast, Int.toNat_of_nonneg (by omega), ← zpow_add₀ (by norm_num)]
      simp
    rw [magnitude, hn, Nat.cast_mul, Nat.cast_pow, Nat.cast_ofNat, mul_right_comm, hpow, one_mul]

/-- An integral number is at a whole number on the line. -/
theorem exists_place_eq (h : isIntegral x = true) :
    ∃ n : Int, place x = (((n : Rat) : WithTop Rat) : WithBot (WithTop Rat)) := by
  have hf : isFinite x = true := ((Bool.and_eq_true _ _).mp h).1
  obtain ⟨n, hn⟩ := exists_magnitude_eq h
  rw [place_of_isFinite hf, toRat_eq, hn]
  cases isNegative x with
  | true => exact ⟨-n, by simp⟩
  | false => exact ⟨n, by simp⟩

end LinearProgram.Binary64
