import Mathlib.Data.Int.Log
import Mathlib.Data.Rat.Floor
import Mathlib.Tactic.FieldSimp
import Mathlib.Tactic.Linarith
import Mathlib.Tactic.NormNum
import Mathlib.Tactic.Positivity
import Mathlib.Tactic.Ring
import LinearProgram.Proofs.BitPattern

/-! The quotients that round to a given floating-point number. -/

namespace LinearProgram.Binary64

/-- A power with either sign of the exponent, as a quotient of whole numbers. -/
theorem zpow_eq_div (b : Nat) (e : Int) :
    (b : Rat) ^ e = (Nat.pow b e.toNat : Nat) / (Nat.pow b (-e).toNat : Nat) := by
  rcases Int.le_total 0 e with h | h
  · obtain ⟨n, rfl⟩ := Int.eq_ofNat_of_zero_le h
    simp
  · obtain ⟨n, hn⟩ := Int.eq_ofNat_of_zero_le (Int.neg_nonneg_of_nonpos h)
    obtain rfl : e = -n := by omega
    simp

/-- A quotient in units of a power of two. -/
theorem scaled_div (num den : Nat) (q : Int) :
    ((num * Nat.pow 2 (-q).toNat : Nat) / (den * Nat.pow 2 q.toNat : Nat) : Rat) =
      num / den / 2 ^ q := by
  have hq := zpow_eq_div 2 q
  have h1 : (0 : Rat) < (Nat.pow 2 (-q).toNat : Nat) := by exact_mod_cast Nat.pow_pos (by decide)
  have h2 : (0 : Rat) < (Nat.pow 2 q.toNat : Nat) := by exact_mod_cast Nat.pow_pos (by decide)
  rw [Nat.cast_ofNat] at hq
  rw [hq, Nat.cast_mul, Nat.cast_mul]
  field_simp

theorem log_eq {r : Rat} (hr : 0 < r) {e : Int} (hlo : (2 : Rat) ^ e ≤ r)
    (hhi : r < 2 ^ (e + 1)) : Int.log 2 r = e := by
  have h1 := (Int.zpow_le_iff_le_log (b := 2) (by decide) hr).1 (by simpa using hlo)
  have h2 := (Int.lt_zpow_iff_log_lt (b := 2) (by decide) hr).1 (by simpa using hhi)
  omega

theorem floorLog_eq_log {num den : Nat} (hn : 0 < num) (hd : 0 < den) :
    floorLog num den = Int.log 2 (num / den : Rat) := by
  have hn' : (0 : Rat) < num := by exact_mod_cast hn
  have hd' : (0 : Rat) < den := by exact_mod_cast hd
  have hr : (0 : Rat) < num / den := div_pos hn' hd'
  have hn1 : (2 : Rat) ^ num.log2 ≤ num := by exact_mod_cast Nat.log2_self_le hn.ne'
  have hn2 : (num : Rat) < 2 ^ (num.log2 + 1) := by exact_mod_cast Nat.lt_log2_self
  have hd1 : (2 : Rat) ^ den.log2 ≤ den := by exact_mod_cast Nat.log2_self_le hd.ne'
  have hd2 : (den : Rat) < 2 ^ (den.log2 + 1) := by exact_mod_cast Nat.lt_log2_self
  obtain ⟨e, he⟩ : ∃ e : Int, e = num.log2 - den.log2 := ⟨_, rfl⟩
  have hhi : (num / den : Rat) < 2 ^ (e + 1) := by
    have he' : e + 1 = (num.log2 + 1 : Nat) - (den.log2 : Nat) := by omega
    rw [he', zpow_sub₀ (by norm_num), zpow_natCast, zpow_natCast,
      div_lt_div_iff₀ hd' (by positivity)]
    calc (num : Rat) * 2 ^ den.log2 ≤ num * den := by gcongr
      _ < 2 ^ (num.log2 + 1) * den := by gcongr
  have hlo : (2 : Rat) ^ (e - 1) ≤ num / den := by
    have he' : e - 1 = (num.log2 : Nat) - (den.log2 + 1 : Nat) := by omega
    rw [he', zpow_sub₀ (by norm_num), zpow_natCast, zpow_natCast,
      div_le_div_iff₀ (by positivity) hd']
    calc (2 : Rat) ^ num.log2 * den ≤ num * den := by gcongr
      _ ≤ num * 2 ^ (den.log2 + 1) := by gcongr
  have hlt : num * Nat.pow 2 (-e).toNat < den * Nat.pow 2 e.toNat ↔ (num / den : Rat) < 2 ^ e := by
    have hpos : (0 : Rat) < (den * Nat.pow 2 e.toNat : Nat) := by
      exact_mod_cast Nat.mul_pos hd (Nat.pow_pos (by decide))
    rw [← div_lt_one₀ (zpow_pos (by norm_num) _), ← scaled_div, div_lt_one₀ hpos]
    exact_mod_cast Iff.rfl
  unfold floorLog
  simp only [← he, hlt]
  split
  · rename_i h
    exact (log_eq hr hlo (by rwa [sub_add_cancel])).symm
  · rename_i h
    exact (log_eq hr (not_lt.1 h) hhi).symm

theorem roundDiv_of_near {a b n : Nat} (hb : 0 < b) (hlo : (n : Rat) - 1 / 2 ≤ a / b)
    (hhi : (a / b : Rat) ≤ n + 1 / 2)
    (hodd : n % 2 = 1 → (n : Rat) - 1 / 2 < a / b ∧ (a / b : Rat) < n + 1 / 2) :
    roundDiv a b = n := by
  have hb' : (0 : Rat) < b := by exact_mod_cast hb
  have hlo' : 2 * (b * n) ≤ 2 * a + b := by
    rw [le_div_iff₀ hb'] at hlo
    have : (2 * (b * n) : Rat) ≤ 2 * a + b := by linarith
    exact_mod_cast this
  have hhi' : 2 * a ≤ 2 * (b * n) + b := by
    rw [div_le_iff₀ hb'] at hhi
    have : (2 * a : Rat) ≤ 2 * (b * n) + b := by linarith
    exact_mod_cast this
  have hodd' (h : n % 2 = 1) : 2 * (b * n) < 2 * a + b ∧ 2 * a < 2 * (b * n) + b := by
    obtain ⟨h1, h2⟩ := hodd h
    rw [lt_div_iff₀ hb'] at h1
    rw [div_lt_iff₀ hb'] at h2
    have h1' : (2 * (b * n) : Rat) < 2 * a + b := by linarith
    have h2' : (2 * a : Rat) < 2 * (b * n) + b := by linarith
    exact ⟨by exact_mod_cast h1', by exact_mod_cast h2'⟩
  have hd := Nat.div_add_mod a b
  have hr := Nat.mod_lt a hb
  have hn : n = a / b ∨ n = a / b + 1 := by
    by_contra hne
    rcases Nat.lt_or_ge n (a / b) with h | h
    · have := Nat.mul_le_mul_left b h
      rw [Nat.mul_succ] at this
      omega
    · have h2 : a / b + 2 ≤ n := by omega
      have := Nat.mul_le_mul_left b h2
      rw [Nat.mul_add] at this
      omega
  unfold roundDiv
  rcases hn with rfl | rfl
  · rw [if_neg]
    rintro (h | ⟨h, ho⟩)
    · omega
    · have := hodd' ho
      omega
  · rw [Nat.mul_succ] at hlo' hhi' hodd'
    refine if_pos ?_
    by_cases ho : a / b % 2 = 1
    · omega
    · have := hodd' (by omega)
      omega

/-- A quotient within half a unit of `m * 2 ^ q` rounds to it; below a power of two, where the units
are half as large, within half of those. -/
theorem nearestBits_of_near {num den m : Nat} {q : Int} (hn : 0 < num) (hd : 0 < den)
    (hq : -1074 ≤ q) (hm : m < 2 ^ 53) (hnormal : -1074 < q → 2 ^ 52 ≤ m)
    (hlo : ((m : Rat) - 1 / 2) * 2 ^ q ≤ num / den) (hhi : (num / den : Rat) ≤ (m + 1 / 2) * 2 ^ q)
    (hodd : m % 2 = 1 →
      ((m : Rat) - 1 / 2) * 2 ^ q < num / den ∧ (num / den : Rat) < (m + 1 / 2) * 2 ^ q)
    (hpower : m = 2 ^ 52 → -1074 < q → ((m : Rat) - 1 / 4) * 2 ^ q ≤ num / den) :
    nearestBits num den = min ((q + 1074).toNat * fractionSize + m) infinityBits := by
  have hn' : (0 : Rat) < num := by exact_mod_cast hn
  have hd' : (0 : Rat) < den := by exact_mod_cast hd
  have hr : (0 : Rat) < num / den := div_pos hn' hd'
  have hpow : (0 : Rat) < 2 ^ q := zpow_pos (by norm_num) q
  have hm' : (m : Rat) + 1 ≤ 2 ^ 53 := by exact_mod_cast hm
  have hround {p : Int} {n : Nat} (h1 : ((n : Rat) - 1 / 2) * 2 ^ p ≤ num / den)
      (h2 : (num / den : Rat) ≤ (n + 1 / 2) * 2 ^ p)
      (h3 : n % 2 = 1 →
        ((n : Rat) - 1 / 2) * 2 ^ p < num / den ∧ (num / den : Rat) < (n + 1 / 2) * 2 ^ p) :
      roundDiv (num * Nat.pow 2 (-p).toNat) (den * Nat.pow 2 p.toNat) = n := by
    have hp : (0 : Rat) < 2 ^ p := zpow_pos (by norm_num) p
    refine roundDiv_of_near (Nat.mul_pos hd (Nat.pow_pos (by decide))) ?_ ?_ fun hn => ?_
    · rwa [scaled_div, le_div_iff₀ hp]
    · rwa [scaled_div, div_le_iff₀ hp]
    · rw [scaled_div, lt_div_iff₀ hp, div_lt_iff₀ hp]
      exact h3 hn
  unfold nearestBits
  rw [if_neg hn.ne', floorLog_eq_log hn hd]
  dsimp only
  by_cases hb : m = 2 ^ 52 ∧ -1074 < q ∧ (num / den : Rat) < 2 ^ (q + 52)
  · -- just below a power of two the unit is half of `2 ^ q`
    obtain ⟨rfl, hq', hlt⟩ := hb
    have h := hpower rfl hq'
    push_cast at h
    have hlog : Int.log 2 (num / den : Rat) = q + 51 := by
      refine log_eq hr ?_ (by rwa [add_assoc])
      rw [zpow_add₀ (by norm_num)]
      nlinarith
    have hhalf : (2 : Rat) ^ (q - 1) = 2 ^ q / 2 := by
      rw [zpow_sub₀ (by norm_num), zpow_one]
    have hmax : max (q + 51 - 52) (-1074) = q - 1 := by omega
    rw [zpow_add₀ (by norm_num)] at hlt
    have hcarry := hround (p := q - 1) (n := 2 ^ 53) (by rw [hhalf]; push_cast; linarith)
      (by rw [hhalf]; push_cast; nlinarith) (fun h => absurd h (by decide))
    have hstep : (q + 1074).toNat = (q - 1 + 1074).toNat + 1 := by omega
    have hunit : 1 * fractionSize + 2 ^ 52 = 2 ^ 53 := by decide
    rw [hlog, hmax, hcarry, hstep, Nat.add_mul, Nat.add_assoc, hunit]
  · have hlog : Int.log 2 (num / den : Rat) < q + 53 := by
      refine (Int.lt_zpow_iff_log_lt (b := 2) (by decide) hr).1 ?_
      rw [Nat.cast_ofNat, zpow_add₀ (by norm_num)]
      nlinarith
    have hlog' (h : -1074 < q) : q + 52 ≤ Int.log 2 (num / den : Rat) := by
      refine (Int.zpow_le_iff_le_log (b := 2) (by decide) hr).1 ?_
      rw [Nat.cast_ofNat]
      by_contra hlt
      have hne : m ≠ 2 ^ 52 := fun he => hb ⟨he, h, not_le.1 hlt⟩
      have hgt : (2 : Rat) ^ 52 + 1 ≤ m := by
        have h2 := hnormal h
        exact_mod_cast (show 2 ^ 52 + 1 ≤ m by omega)
      rw [zpow_add₀ (by norm_num)] at hlt
      nlinarith
    have hmax : max (Int.log 2 (num / den : Rat) - 52) (-1074) = q := by
      by_cases h : -1074 < q
      · have := hlog' h
        omega
      · omega
    rw [hmax, hround hlo hhi hodd]

end LinearProgram.Binary64
