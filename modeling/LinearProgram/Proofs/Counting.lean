import LinearProgram.Binary64.Arithmetic
import LinearProgram.Proofs.BitPattern

/-! Counting in floating point. Adding one time and again is exact up to two to the power 53, and
changes nothing from there on. -/

namespace LinearProgram.Binary64

open Float.Model (Format UnpackedFloat totalExponent)
open Float.Model.UnpackedFloat (ExtendedMantissa packComponents unpackExponent_packComponents
  unpackMantissa_packComponents unpackSign_packComponents decreaseExponent roundWithAccuracy
  shiftToTargetExponent shiftToExponent)

theorem shiftRight_mul_two_pow (m k : Nat) :
    ((⟨m * 2 ^ k, false, false⟩ : ExtendedMantissa) >>> k) = ⟨m, false, false⟩ := by
  show Nat.repeat ExtendedMantissa.shiftRightOne k _ = _
  induction k generalizing m with
  | zero => simp [Nat.repeat]
  | succ k ih =>
    rw [Nat.repeat, pow_succ', ← mul_assoc, ih]
    simp [ExtendedMantissa.shiftRightOne]

theorem log2_mul_two_pow {m : Nat} (hm : m ≠ 0) (k : Nat) : (m * 2 ^ k).log2 = m.log2 + k := by
  induction k with
  | zero => simp
  | succ k ih =>
    have hne : m * 2 ^ k ≠ 0 := Nat.mul_ne_zero hm (Nat.two_pow_pos k).ne'
    rw [pow_succ', Nat.mul_left_comm, Nat.log2_two_mul hne, ih, Nat.add_assoc]

/-- A mantissa of 53 binary digits. -/
def IsFull (m : Nat) : Prop :=
  0 < m ∧ m.log2 = 52

namespace IsFull

variable {m : Nat}

theorem ge (hm : IsFull m) : 2 ^ 52 ≤ m :=
  hm.2 ▸ Nat.log2_self_le hm.1.ne'

theorem lt (hm : IsFull m) : m < 2 ^ 53 :=
  (Nat.log2_lt hm.1.ne').1 (by rw [hm.2]; decide)

theorem unpack_pack (hm : IsFull m) {e : Int} (hl : -1074 ≤ e) (hu : e ≤ 971) :
    (Float.Model.pack (.finite .positive m e hm.1)).unpack = .finite .positive m e hm.1 := by
  have hb : (e + Format.binary64.exponentBias + (52 : Nat)).toNat = (e + 1075).toNat := by
    simp only [Format.exponentBias]
    omega
  have hbits : UnpackedFloat.pack .binary64 (.finite .positive m e hm.1) =
      packComponents .binary64 .positive (.ofNat 11 (e + 1075).toNat) (.ofNat 52 m) := by
    rw [UnpackedFloat.pack, hm.2]
    simp only [hb]
    rw [if_neg (by omega)]
    exact if_pos rfl
  have hexponent : (BitVec.ofNat 11 (e + 1075).toNat).toNat = (e + 1075).toNat := by
    rw [BitVec.toNat_ofNat]
    omega
  have hmantissa : (1#1 ++ BitVec.ofNat 52 m).toNat = m := by
    have hge := hm.ge
    have hlt := hm.lt
    rw [BitVec.toNat_append, Nat.shiftLeft_eq, BitVec.toNat_ofNat, BitVec.toNat_ofNat]
    rw [← Nat.shiftLeft_eq, ← Nat.shiftLeft_add_eq_or_of_lt]
    · rw [Nat.shiftLeft_eq]
      omega
    · omega
  have hne (b : BitVec 11) (hb : b.toNat ≠ (e + 1075).toNat) :
      BitVec.ofNat 11 (e + 1075).toNat ≠ b :=
    fun h => hb (h ▸ hexponent)
  show UnpackedFloat.unpack .binary64 (UnpackedFloat.pack .binary64 _) = _
  rw [hbits, UnpackedFloat.unpack]
  simp only [unpackExponent_packComponents, unpackMantissa_packComponents,
    unpackSign_packComponents]
  rw [if_neg (hne _ (by simp; omega)), if_neg (hne _ (by simp; omega))]
  simp only [hexponent, hmantissa]
  congr 1
  simp only [Format.exponentBias]
  omega

theorem shiftToTargetExponent_eq (hm : IsFull m) (k : Nat) {e : Int} (he : -1074 ≤ e + k) :
    shiftToTargetExponent .binary64 (m * 2 ^ k) e .exact = (⟨m, false, false⟩, e + k) := by
  have hlog : (m * 2 ^ k).log2 = 52 + k := by rw [log2_mul_two_pow hm.1.ne', hm.2]
  have htarget : Format.binary64.targetExponent (totalExponent (m * 2 ^ k) e) = e + k := by
    simp only [Format.targetExponent, totalExponent, hlog, Format.mantissaBits, Format.minExponent]
    omega
  have hk : (e + k - e).toNat = k := by omega
  unfold shiftToTargetExponent shiftToExponent
  simp only [htarget, hk]
  exact congrArg (·, e + (k : Int)) (shiftRight_mul_two_pow m k)

theorem round_eq (hm : IsFull m) (k : Nat) {e : Int} (he : -1074 ≤ e + k) :
    UnpackedFloat.round .binary64 .positive (m * 2 ^ k) e = .finite .positive m (e + k) hm.1 := by
  have hlog : (m * 2 ^ k).log2 = 52 + k := by rw [log2_mul_two_pow hm.1.ne', hm.2]
  have htarget : Format.binary64.targetExponent (totalExponent (m * 2 ^ k) e) = e + k := by
    simp only [Format.targetExponent, totalExponent, hlog, Format.mantissaBits, Format.minExponent]
    omega
  have hdecrease : decreaseExponent (m * 2 ^ k) e (e + k) = (m * 2 ^ k, e) := by
    simp [decreaseExponent]
  have hfirst := hm.shiftToTargetExponent_eq k he
  have hagain := hm.shiftToTargetExponent_eq 0 (e := e + k) (by omega)
  rw [pow_zero, mul_one] at hagain
  unfold UnpackedFloat.round
  simp only [htarget, hdecrease]
  unfold roundWithAccuracy
  have hrounded : (⟨m, false, false⟩ : ExtendedMantissa).roundedMantissa = m := rfl
  simp only [hfirst, hrounded, hagain]
  rw [dif_neg hm.1.ne']
  simp

end IsFull

theorem add_positive (s : Format) {m o k : Nat} (hm : 0 < m) (ho : 0 < o) (e : Int) :
    UnpackedFloat.add s (.finite .positive m (e + k) hm) (.finite .positive o e ho) =
      .round s .positive (m * 2 ^ k + o) e := by
  have hmin : min (e + k) e = e := by omega
  have hshift : (e + k - e).toNat = k := by omega
  have hpos : compare ((m * 2 ^ k : Nat) + o : Int) 0 = .gt := by
    rw [Int.compare_eq_gt]
    omega
  simp only [UnpackedFloat.add, hmin, decreaseExponent, hshift, Nat.shiftLeft_eq, Int.sub_self,
    Int.toNat_zero, pow_zero, mul_one, UnpackedFloat.Sign.apply, UnpackedFloat.normalize, hpos]
  rw [← Int.natCast_add, Int.toNat_natCast]

theorem exists_isFull {n : Nat} (hn : 0 < n) (hlt : n ≤ 2 ^ 53) :
    ∃ m, IsFull m ∧ m * 2 ^ n.log2 = n * 2 ^ 52 := by
  rcases Nat.lt_or_eq_of_le hlt with hlt | rfl
  · have hlog : n.log2 ≤ 52 := Nat.le_of_lt_succ ((Nat.log2_lt hn.ne').2 hlt)
    have hpos : 0 < n * 2 ^ (52 - n.log2) := Nat.mul_pos hn (Nat.two_pow_pos _)
    refine ⟨n * 2 ^ (52 - n.log2), ⟨hpos, ?_⟩, ?_⟩
    · rw [log2_mul_two_pow hn.ne']
      omega
    · rw [mul_assoc, ← pow_add, Nat.sub_add_cancel hlog]
  · exact ⟨2 ^ 52, ⟨by decide, by decide⟩, by decide⟩

/-- The number is `n`, written with a full mantissa. -/
def Counts (x : Float) (n : Nat) : Prop :=
  ∃ m, ∃ hm : IsFull m, m * 2 ^ n.log2 = n * 2 ^ 52 ∧
    x.toModel.unpack = .finite .positive m (n.log2 - 52) hm.1

theorem ofModel_pack_unpack (x : Float) : Float.ofModel (.pack x.toModel.unpack) = x := by
  obtain ⟨⟨⟨b⟩, hv⟩⟩ := x
  have hb : UnpackedFloat.pack .binary64 (.unpack .binary64 b) = b :=
    Float.Model.UnpackedFloat.pack_unpack_of_valid hv
  simp only [Float.Model.unpack, Float.Model.pack, hb]

/-- Adding to zero changes a number only where that one is a zero with the other sign. -/
theorem zero_add_of_ne_zero {x : Float} (hx : (x == 0) = false) : 0 + x = x := by
  have hzero : (0 : Float).toModel.unpack = .zero .positive := rfl
  have hadd : UnpackedFloat.add .binary64 (0 : Float).toModel.unpack x.toModel.unpack =
      x.toModel.unpack := by
    have hx : UnpackedFloat.beq x.toModel.unpack (0 : Float).toModel.unpack = false := hx
    rw [hzero] at hx ⊢
    cases h : x.toModel.unpack with
    | zero s =>
      rw [h] at hx
      cases hx
    | notANumber => rfl
    | infinity s => rfl
    | finite s m e hm => rfl
  show Float.ofModel (.pack (UnpackedFloat.add .binary64 _ _)) = x
  rw [hadd, ofModel_pack_unpack]

theorem isFinite_of_unpack {x : Float} {s : UnpackedFloat.Sign} {m : Nat} {e : Int} {hm : 0 < m}
    (h : x.toModel.unpack = .finite s m e hm) : isFinite x = true := by
  -- an exponent of ones alone is unpacked to an infinity or to no number
  by_contra hf
  have hlt : biasedExponent x < 2048 := Nat.mod_lt _ (by decide)
  have hb : biasedExponent x = 2047 := by
    simp only [isFinite, decide_eq_true_eq] at hf
    omega
  have hexponent :
      UnpackedFloat.unpackExponent (show Bits from x.toModel.toBits.toBitVec) = -1#11 := by
    apply BitVec.eq_of_toNat_eq
    rw [toNat_unpackExponent]
    exact hb
  unfold Float.Model.unpack UnpackedFloat.unpack at h
  simp only [hexponent] at h
  split at h
  · split at h <;> cases h
  · contradiction

namespace Counts

variable {x y : Float} {n : Nat}

theorem unique (hx : Counts x n) (hy : Counts y n) : x = y := by
  obtain ⟨m, hm, hx, hux⟩ := hx
  obtain ⟨o, ho, hy, huy⟩ := hy
  obtain rfl := Nat.eq_of_mul_eq_mul_right (Nat.two_pow_pos _) (hx.trans hy.symm)
  rw [← ofModel_pack_unpack x, ← ofModel_pack_unpack y, hux, huy]

theorem one : Counts 1 1 :=
  ⟨2 ^ 52, ⟨by decide, by decide⟩, by decide, rfl⟩

theorem unpack_add_one (h : Counts x n) :
    UnpackedFloat.add .binary64 x.toModel.unpack (1 : Float).toModel.unpack =
      .round .binary64 .positive ((n + 1) * 2 ^ 52) (-52) := by
  obtain ⟨m, hm, he, hx⟩ := h
  have hone : (1 : Float).toModel.unpack = .finite .positive (2 ^ 52) (-52) (by decide) := rfl
  have hexponent : (n.log2 : Int) - 52 = -52 + n.log2 := by omega
  have hsum : m * 2 ^ n.log2 + 2 ^ 52 = (n + 1) * 2 ^ 52 := by rw [he, Nat.add_mul, one_mul]
  simp only [hexponent] at hx
  rw [hx, hone, add_positive, hsum]

theorem add_one (h : Counts x n) (hlt : n < 2 ^ 53) : Counts (x + 1) (n + 1) := by
  obtain ⟨m, hm, he⟩ := exists_isFull (Nat.succ_pos n) hlt
  have hlog : (n + 1).log2 < 54 := (Nat.log2_lt (Nat.succ_ne_zero n)).2 (by omega)
  have hround := hm.round_eq (n + 1).log2 (e := -52) (by omega)
  rw [he, ← h.unpack_add_one] at hround
  refine ⟨m, hm, he, ?_⟩
  show (Float.Model.pack (UnpackedFloat.add .binary64 x.toModel.unpack _)).unpack = _
  rw [hround, hm.unpack_pack (by omega) (by omega)]
  congr 1

theorem add_one_last (h : Counts x (2 ^ 53)) : x + 1 = x := by
  -- the sum is a tie between two neighbours, and the even mantissa is the one below
  have hm : IsFull (2 ^ 52) := ⟨by decide, by decide⟩
  have hlog : ((2 ^ 53 : Nat).log2 : Int) - 52 = 1 := by decide
  have htop : Counts (Float.ofModel (.pack (.finite .positive (2 ^ 52) 1 (by decide)))) (2 ^ 53) :=
    ⟨2 ^ 52, hm, by decide, by rw [hlog]; exact hm.unpack_pack (by decide) (by decide)⟩
  rw [h.unique htop]
  decide +kernel

end Counts

def IsCount (x : Float) : Prop :=
  ∃ n ≤ 2 ^ 53, Counts x n

namespace IsCount

variable {x : Float}

theorem one : IsCount 1 :=
  ⟨1, by decide, .one⟩

theorem add_one (h : IsCount x) : IsCount (x + 1) := by
  obtain ⟨n, hn, hx⟩ := h
  rcases Nat.lt_or_eq_of_le hn with hlt | rfl
  · exact ⟨n + 1, hlt, hx.add_one hlt⟩
  · exact ⟨2 ^ 53, hn, by rwa [hx.add_one_last]⟩

theorem beq_zero (h : IsCount x) : (x == 0) = false := by
  obtain ⟨n, -, m, hm, -, hx⟩ := h
  show UnpackedFloat.beq x.toModel.unpack _ = false
  rw [hx]
  rfl

theorem zero_add (h : IsCount x) : 0 + x = x :=
  zero_add_of_ne_zero h.beq_zero

theorem isFinite (h : IsCount x) : isFinite x = true := by
  obtain ⟨n, -, m, hm, -, hx⟩ := h
  exact isFinite_of_unpack hx

end IsCount

end LinearProgram.Binary64
