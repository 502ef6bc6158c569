import LinearProgram.Decimal.Layout
import LinearProgram.Proofs.NearestNumber

/-! The shortest digits of a finite number round back to it. -/

namespace LinearProgram

open Binary64

theorem pow_ten_le_pow_two {k s : Nat} (h : 10 * k ≤ 3 * s) : 10 ^ k ≤ 2 ^ s := by
  refine (Nat.pow_le_pow_iff_left (n := 3) (by decide)).1 ?_
  calc (10 ^ k) ^ 3 = (10 ^ 3) ^ k := by rw [← Nat.pow_mul, ← Nat.pow_mul, Nat.mul_comm]
    _ ≤ (2 ^ 10) ^ k := Nat.pow_le_pow_left (by decide) k
    _ = 2 ^ (10 * k) := by rw [Nat.pow_mul]
    _ ≤ 2 ^ (3 * s) := Nat.pow_le_pow_right (by decide) h
    _ = (2 ^ s) ^ 3 := by rw [← Nat.pow_mul, Nat.mul_comm]

theorem pow_two_le_pow_ten {s k : Nat} (h : 28 * s ≤ 93 * k) : 2 ^ s ≤ 10 ^ k := by
  refine (Nat.pow_le_pow_iff_left (n := 93) (by decide)).1 ?_
  calc (2 ^ s) ^ 93 = (2 ^ 93) ^ s := by rw [← Nat.pow_mul, ← Nat.pow_mul, Nat.mul_comm]
    _ ≤ (10 ^ 28) ^ s := Nat.pow_le_pow_left (by decide) s
    _ = 10 ^ (28 * s) := by rw [Nat.pow_mul]
    _ ≤ 10 ^ (93 * k) := Nat.pow_le_pow_right (by decide) h
    _ = (10 ^ k) ^ 93 := by rw [← Nat.pow_mul, Nat.mul_comm]

theorem zpow_ten_le_zpow_two {k s : Int} (hpos : 0 < k → 10 * k ≤ 3 * s)
    (hneg : k ≤ 0 → s < 0 → 28 * -s ≤ 93 * -k) : (10 : Rat) ^ k ≤ 2 ^ s := by
  rcases lt_or_ge 0 k with hk | hk
  · obtain ⟨a, rfl⟩ := Int.eq_ofNat_of_zero_le hk.le
    obtain ⟨b, rfl⟩ := Int.eq_ofNat_of_zero_le (show 0 ≤ s by have := hpos hk; omega)
    rw [zpow_natCast, zpow_natCast]
    exact_mod_cast pow_ten_le_pow_two (by have := hpos hk; omega)
  · rcases lt_or_ge s 0 with hs | hs
    · obtain ⟨a, ha⟩ := Int.eq_ofNat_of_zero_le (Int.neg_nonneg_of_nonpos hk)
      obtain ⟨b, hb⟩ := Int.eq_ofNat_of_zero_le (Int.neg_nonneg_of_nonpos hs.le)
      have hle : (2 : Rat) ^ b ≤ 10 ^ a := by
        exact_mod_cast pow_two_le_pow_ten (by have := hneg hk hs; omega)
      obtain rfl : k = -a := by omega
      obtain rfl : s = -b := by omega
      rw [zpow_neg, zpow_neg, zpow_natCast, zpow_natCast]
      exact inv_anti₀ (by positivity) hle
    · exact (zpow_le_one_of_nonpos₀ (by norm_num) hk).trans (one_le_zpow₀ (by norm_num) hs)

namespace Decimal.Interval

/-- The interval contains the number, an end of it only where it is closed. -/
structure Contains (i : Interval) (r : Rat) : Prop where
  low : i.low * 2 ^ i.scale ≤ r
  high : r ≤ i.high * 2 ^ i.scale
  inside : i.closed = false → i.low * 2 ^ i.scale < r ∧ r < i.high * 2 ^ i.scale

/-- Units and steps are multiples of their powers by one factor. -/
theorem exists_factor (i : Interval) (k : Int) :
    ∃ c : Rat, 0 < c ∧ i.unit k = 2 ^ i.scale * c ∧ i.step k = 10 ^ k * c := by
  have h2 := zpow_eq_div 2 i.scale
  have h10 := zpow_eq_div 10 k
  have hp2 : (0 : Rat) < (Nat.pow 2 (-i.scale).toNat : Nat) := by
    exact_mod_cast Nat.pow_pos (by decide)
  have hp10 : (0 : Rat) < (Nat.pow 10 (-k).toNat : Nat) := by
    exact_mod_cast Nat.pow_pos (by decide)
  rw [Nat.cast_ofNat] at h2 h10
  refine ⟨(Nat.pow 2 (-i.scale).toNat : Nat) * (Nat.pow 10 (-k).toNat : Nat),
    mul_pos hp2 hp10, ?_, ?_⟩
  · rw [h2, unit, Nat.cast_mul]
    field_simp
  · rw [h10, step, Nat.cast_mul]
    field_simp

theorem scaled_le {i : Interval} {k : Int} {a d : Nat} :
    a * i.unit k ≤ d * i.step k ↔ (a : Rat) * 2 ^ i.scale ≤ d * 10 ^ k := by
  obtain ⟨c, hc, hu, hs⟩ := i.exists_factor k
  rw [← Nat.cast_le (α := Rat), Nat.cast_mul, Nat.cast_mul, hu, hs, ← mul_assoc, ← mul_assoc]
  exact mul_le_mul_iff_left₀ hc

theorem scaled_lt {i : Interval} {k : Int} {a d : Nat} :
    a * i.unit k < d * i.step k ↔ (a : Rat) * 2 ^ i.scale < d * 10 ^ k := by
  obtain ⟨c, hc, hu, hs⟩ := i.exists_factor k
  rw [← Nat.cast_lt (α := Rat), Nat.cast_mul, Nat.cast_mul, hu, hs, ← mul_assoc, ← mul_assoc]
  exact mul_lt_mul_iff_left₀ hc

theorem le_scaled {i : Interval} {k : Int} {a d : Nat} :
    d * i.step k ≤ a * i.unit k ↔ (d : Rat) * 10 ^ k ≤ a * 2 ^ i.scale := by
  rw [← not_lt, scaled_lt, not_lt]

theorem lt_scaled {i : Interval} {k : Int} {a d : Nat} :
    d * i.step k < a * i.unit k ↔ (d : Rat) * 10 ^ k < a * 2 ^ i.scale := by
  rw [← not_le, scaled_le, not_le]

theorem unit_pos (i : Interval) (k : Int) : 0 < i.unit k :=
  Nat.mul_pos (Nat.pow_pos (by decide)) (Nat.pow_pos (by decide))

theorem step_pos (i : Interval) (k : Int) : 0 < i.step k :=
  Nat.mul_pos (Nat.pow_pos (by decide)) (Nat.pow_pos (by decide))

theorem within_of_lt {closed : Bool} {a b : Nat} (h : a < b) : within closed a b = true := by
  cases closed
  · simpa [within] using h
  · simpa [within] using h.le

theorem contains_of_within {i : Interval} {k : Int} {d : Nat}
    (hl : within i.closed (i.low * i.unit k) (d * i.step k) = true)
    (hh : within i.closed (d * i.step k) (i.high * i.unit k) = true) :
    i.Contains (d * 10 ^ k) := by
  unfold within at hl hh
  cases hc : i.closed with
  | true =>
    simp only [hc, if_true, decide_eq_true_eq] at hl hh
    exact ⟨scaled_le.1 hl, le_scaled.1 hh, by simp [hc]⟩
  | false =>
    simp only [hc, Bool.false_eq_true, if_false, decide_eq_true_eq] at hl hh
    exact ⟨scaled_le.1 hl.le, le_scaled.1 hh.le, fun _ => ⟨scaled_lt.1 hl, lt_scaled.1 hh⟩⟩

/-- The point below the middle does not pass the upper end, nor the point above it the lower. -/
theorem contains_of_gridPoint? {i : Interval} (hl : i.low < i.middle) (hh : i.middle < i.high)
    {tie : Tie} {k : Int} {d : Nat} (h : i.gridPoint? tie k = some d) :
    i.Contains (d * 10 ^ k) := by
  have hu := i.unit_pos k
  have hmiddle := Nat.div_add_mod' (i.middle * i.unit k) (i.step k)
  have hmod := Nat.mod_lt (i.middle * i.unit k) (i.step_pos k)
  have hlow := Nat.mul_lt_mul_of_pos_right hl hu
  have hhigh := Nat.mul_lt_mul_of_pos_right hh hu
  unfold gridPoint? at h
  dsimp only at h
  generalize i.middle * i.unit k / i.step k = d₀ at h hmiddle
  have hbelow : within i.closed (d₀ * i.step k) (i.high * i.unit k) = true :=
    within_of_lt (by omega)
  have habove : within i.closed (i.low * i.unit k) ((d₀ + 1) * i.step k) = true := by
    refine within_of_lt ?_
    rw [Nat.succ_mul]
    omega
  cases hb : within i.closed (i.low * i.unit k) (d₀ * i.step k) <;>
    cases ha : within i.closed ((d₀ + 1) * i.step k) (i.high * i.unit k) <;>
    simp only [hb, ha] at h
  · cases h
  · obtain rfl := Option.some.inj h
    exact contains_of_within habove ha
  · obtain rfl := Option.some.inj h
    exact contains_of_within hb hbelow
  · have hd : d = d₀ ∨ d = d₀ + 1 := by
      cases tie <;> dsimp only at h <;> split_ifs at h <;> simp_all
    rcases hd with rfl | rfl
    · exact contains_of_within hb hbelow
    · exact contains_of_within habove ha

/-- A grid that is no coarser than the units has a point between the low end and the middle. -/
theorem gridPoint?_isSome {i : Interval} (hl : i.low < i.middle) {tie : Tie} {k : Int}
    (hk : (10 : Rat) ^ k ≤ 2 ^ i.scale) : (i.gridPoint? tie k).isSome = true := by
  have hstep : 1 * i.step k ≤ 1 * i.unit k := le_scaled.2 (by simpa using hk)
  have hmiddle := Nat.div_add_mod' (i.middle * i.unit k) (i.step k)
  have hmod := Nat.mod_lt (i.middle * i.unit k) (i.step_pos k)
  have hlow := Nat.mul_le_mul_right (i.unit k) (Nat.succ_le_of_lt hl)
  rw [Nat.succ_mul] at hlow
  unfold gridPoint?
  dsimp only
  generalize i.middle * i.unit k / i.step k = d₀ at hmiddle
  have hb : within i.closed (i.low * i.unit k) (d₀ * i.step k) = true :=
    within_of_lt (by omega)
  cases ha : within i.closed ((d₀ + 1) * i.step k) (i.high * i.unit k) <;>
    simp only [hb]
  · rfl
  · cases tie <;> dsimp only <;> split_ifs <;> rfl

theorem search_spec {i : Interval} {tie : Tie} {fuel j : Nat} {k : Int} (hj : j < fuel)
    (h : (i.gridPoint? tie (k - j)).isSome = true) :
    i.gridPoint? tie (i.search tie fuel k).exponent = some (i.search tie fuel k).digits := by
  induction fuel generalizing j k with
  | zero => omega
  | succ fuel ih =>
    unfold search
    cases hp : i.gridPoint? tie k with
    | some d => exact hp
    | none =>
      cases j with
      | zero => simp [hp] at h
      | succ j =>
        refine ih (j := j) (by omega) ?_
        rwa [show k - 1 - (j : Int) = k - (j + 1 : Nat) by omega]

/-- What is known of the interval around a finite number other than zero. -/
theorem around_spec {x : Float} (hm : mantissa x ≠ 0) :
    (around x).low < (around x).middle ∧ (around x).middle < (around x).high ∧
      2 ≤ (around x).low ∧ (around x).high < 2 ^ 55 := by
  have := mantissa_lt x
  simp only [around]
  split <;> omega

end Decimal.Interval

open Decimal Decimal.Interval

/-- The search for digits ends on a grid point of the interval. -/
theorem Decimal.contains_shortest (tie : Tie) {x : Float} (hf : isFinite x = true)
    (hm : mantissa x ≠ 0) :
    (Interval.around x).Contains ((shortest tie x).digits * 10 ^ (shortest tie x).exponent) := by
  obtain ⟨hl, hh, -, hhigh⟩ := around_spec hm
  refine contains_of_gridPoint? hl hh (search_spec (j := 23) (by decide) ?_)
  refine gridPoint?_isSome hl ?_
  have hscale : (Interval.around x).scale = exponent x - 2 := rfl
  have h1 := le_exponent x
  have h2 := exponent_le hf
  have hlog : (Interval.around x).high.log2 < 55 := by
    rw [Nat.log2_lt]
    · exact hhigh
    · omega
  generalize hk : (Interval.around x).startExponent - (23 : Nat) = k
  unfold startExponent at hk
  generalize (Interval.around x).scale = s at *
  generalize (Interval.around x).high.log2 = n at *
  refine zpow_ten_le_zpow_two (fun _ => ?_) fun _ _ => ?_
  · omega
  · omega

/-- Whatever lies in the interval of a number rounds to the bits of the number. -/
theorem Binary64.nearestBits_of_contains {x : Float} (hf : isFinite x = true) {num den : Nat}
    (hn : 0 < num) (hd : 0 < den) (h : (Interval.around x).Contains (num / den)) :
    nearestBits num den = biasedExponent x * fractionSize + fraction x := by
  have hscale : (2 : Rat) ^ (Interval.around x).scale = 2 ^ exponent x / 4 := by
    show (2 : Rat) ^ (exponent x - 2) = _
    rw [zpow_sub₀ (by norm_num)]
    norm_num
  have hpow : (0 : Rat) < 2 ^ exponent x := zpow_pos (by norm_num) _
  have hhigh : ((Interval.around x).high : Rat) = 4 * mantissa x + 2 := by
    simp [Interval.around]
  have hlow : (4 * mantissa x - 2 : Rat) ≤ (Interval.around x).low := by
    have : 4 * mantissa x ≤ (Interval.around x).low + 2 := by
      simp only [Interval.around]
      split <;> omega
    have : (4 * mantissa x : Rat) ≤ (Interval.around x).low + 2 := by exact_mod_cast this
    linarith
  obtain ⟨hl, hh, hi⟩ := h
  rw [hscale] at hl hh hi
  rw [hhigh] at hh hi
  have hl' := mul_le_mul_of_nonneg_right hlow hpow.le
  rw [fields_eq, nearestBits_of_near hn hd (le_exponent x) (mantissa_lt x) le_mantissa
    (by linarith) (by linarith), ← fields_eq, Nat.min_eq_left (fields_le hf)]
  · intro ho
    have hc : (Interval.around x).closed = false := by simp [Interval.around, ho]
    obtain ⟨h1, h2⟩ := hi hc
    exact ⟨by linarith, by linarith⟩
  · intro hp hq
    have he : 1 < biasedExponent x := by
      simp only [exponent] at hq
      omega
    have hlow' : (Interval.around x).low = 4 * mantissa x - 1 := if_pos ⟨hp, he⟩
    have hle : 4 * mantissa x ≤ (Interval.around x).low + 1 := by omega
    have hle' : (4 * mantissa x : Rat) ≤ (Interval.around x).low + 1 := by exact_mod_cast hle
    have := mul_le_mul_of_nonneg_right hle' hpow.le
    linarith

/-- A numeral with its value in the interval of a number is read as the number. -/
theorem Binary64.ofDecimal_of_contains {x : Float} (hf : isFinite x = true) (hm : mantissa x ≠ 0)
    {d : Nat} {e : Int} (h : (Interval.around x).Contains (d * 10 ^ e)) :
    ofDecimal (isNegative x) d e = x := by
  obtain ⟨-, -, hlow, hhigh⟩ := around_spec hm
  have hpow : (0 : Rat) < 2 ^ (Interval.around x).scale := zpow_pos (by norm_num) _
  have hten : (0 : Rat) < 10 ^ e := zpow_pos (by norm_num) _
  have hlow' : (2 : Rat) ≤ (Interval.around x).low := by exact_mod_cast hlow
  have hhigh' : ((Interval.around x).high : Rat) ≤ 2 ^ 55 := by exact_mod_cast hhigh.le
  have hscale : -1076 ≤ (Interval.around x).scale ∧ (Interval.around x).scale ≤ 969 := by
    have h1 := le_exponent x
    have h2 := exponent_le hf
    have h3 : (Interval.around x).scale = exponent x - 2 := rfl
    omega
  have hsmall : (2 : Rat) ^ (-1076 : Int) ≤ 2 ^ (Interval.around x).scale :=
    zpow_le_zpow_right₀ (by norm_num) hscale.1
  have hlarge : (2 : Rat) ^ (Interval.around x).scale ≤ 2 ^ (969 : Nat) := by
    rw [← zpow_natCast]
    exact zpow_le_zpow_right₀ (by norm_num) hscale.2
  have hd : 0 < d := by
    rcases Nat.eq_zero_or_pos d with rfl | hd
    · have := h.low
      norm_num at this
      nlinarith
    · exact hd
  have hunder : ¬ (e + (((d.log2 : Int) + 1) * 302 / 1000 + 1) < -330) := by
    intro hlt
    have hdigits : (d : Rat) < 10 ^ ((d.log2 + 1) * 302 / 1000 + 1) := by
      have h2 : 2 ^ (d.log2 + 1) ≤ 10 ^ ((d.log2 + 1) * 302 / 1000 + 1) :=
        pow_two_le_pow_ten (by omega)
      exact_mod_cast Nat.lt_of_lt_of_le Nat.lt_log2_self h2
    have hle : (10 : Rat) ^ ((((d.log2 + 1) * 302 / 1000 + 1 : Nat) : Int) + e) ≤
        2 ^ (-1076 : Int) :=
      zpow_ten_le_zpow_two (by omega) (by omega)
    rw [zpow_add₀ (by norm_num), zpow_natCast] at hle
    have := h.low
    nlinarith
  have hover : ¬ 310 < e := by
    intro hlt
    have hd' : (1 : Rat) ≤ d := by exact_mod_cast hd
    have hle : (10 : Rat) ^ (311 : Nat) ≤ 10 ^ e := by
      rw [← zpow_natCast]
      exact zpow_le_zpow_right₀ (by norm_num) hlt
    have hmax : (2 : Rat) ^ 55 * 2 ^ 969 ≤ 10 ^ 310 := by
      rw [← pow_add]
      exact_mod_cast pow_two_le_pow_ten (s := 55 + 969) (k := 310) (by decide)
    have hlt' : (10 : Rat) ^ 310 < 10 ^ 311 := pow_lt_pow_right₀ (by norm_num) (by norm_num)
    have : (d : Rat) * 10 ^ e < d * 10 ^ e := by
      calc (d : Rat) * 10 ^ e ≤ (Interval.around x).high * 2 ^ (Interval.around x).scale := h.high
        _ ≤ 2 ^ 55 * 2 ^ 969 := by gcongr
        _ < 10 ^ 311 := hmax.trans_lt hlt'
        _ ≤ 10 ^ e := hle
        _ ≤ d * 10 ^ e := le_mul_of_one_le_left hten.le hd'
    exact lt_irrefl _ this
  have hratio : ((d * Nat.pow 10 e.toNat : Nat) / (Nat.pow 10 (-e).toNat : Nat) : Rat) =
      d * 10 ^ e := by
    have h10 := zpow_eq_div 10 e
    rw [Nat.cast_ofNat] at h10
    rw [h10, Nat.cast_mul, mul_div_assoc]
  have hnum : 0 < d * Nat.pow 10 e.toNat := Nat.mul_pos hd (Nat.pow_pos (by decide))
  have hden : 0 < Nat.pow 10 (-e).toNat := Nat.pow_pos (by decide)
  have hnearest := nearestBits_of_contains hf hnum hden (by rw [hratio]; exact h)
  unfold ofDecimal
  dsimp only
  rw [if_neg, if_neg hover, ofRatio, hnearest, ofBitPattern_fields]
  rintro (h0 | h0)
  · omega
  · exact hunder h0

end LinearProgram
