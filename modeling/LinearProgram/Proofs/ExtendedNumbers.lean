import Mathlib.Algebra.Order.Ring.Rat
import Mathlib.Algebra.BigOperators.Group.List.Basic
import LinearProgram.Scalar

/-! Exact rationals with two infinities and an undefined value: the numbers of binary floating
point as they would be if nothing had to be rounded. -/

namespace LinearProgram

inductive Extended where
  | finite (q : Rat)
  | infinite (negative : Bool)
  | undefined
deriving DecidableEq

namespace Extended

protected def add : Extended → Extended → Extended
  | finite a, finite b => finite (a + b)
  | finite _, infinite n => infinite n
  | infinite n, finite _ => infinite n
  | infinite m, infinite n => if m = n then infinite m else undefined
  | _, _ => undefined

protected def neg : Extended → Extended
  | finite a => finite (-a)
  | infinite n => infinite !n
  | undefined => undefined

/-- Zero times an infinity is undefined. -/
def scale (q : Rat) (negative : Bool) : Extended :=
  if q = 0 then undefined else infinite (negative != decide (q < 0))

protected def mul : Extended → Extended → Extended
  | finite a, finite b => finite (a * b)
  | finite a, infinite n => scale a n
  | infinite n, finite a => scale a n
  | infinite m, infinite n => infinite (m != n)
  | _, _ => undefined

/-- There is only one zero, and it counts as positive. -/
protected def inv : Extended → Extended
  | finite a => if a = 0 then infinite false else finite a⁻¹
  | infinite _ => finite 0
  | undefined => undefined

protected def beq : Extended → Extended → Bool
  | finite a, finite b => a == b
  | infinite m, infinite n => m == n
  | _, _ => false

protected def lt : Extended → Extended → Bool
  | finite a, finite b => decide (a < b)
  | finite _, infinite n => !n
  | infinite n, finite _ => n
  | infinite m, infinite n => m && !n
  | _, _ => false

def text : Extended → String
  | finite q => Scalar.text q
  | infinite false => "inf"
  | infinite true => "-inf"
  | undefined => "NaN"

end Extended

instance : Scalar Extended where
  zero := .finite 0
  one := .finite 1
  sumStart := .finite 0
  add := Extended.add
  neg := Extended.neg
  mul := Extended.mul
  div a b := a.mul b.inv
  beq := Extended.beq
  lt := Extended.lt
  le a b := a.lt b || a.beq b
  isNaN a := a matches .undefined
  isFinite a := a matches .finite _
  isIntegral
    | .finite q => q.den == 1
    | _ => false
  text := Extended.text

namespace Extended

@[simp] theorem finite_add_finite (a b : Rat) : finite a + finite b = finite (a + b) :=
  rfl

@[simp] theorem finite_mul_finite (a b : Rat) : finite a * finite b = finite (a * b) :=
  rfl

theorem exists_of_isFinite {x : Extended} (h : Scalar.isFinite x = true) : ∃ q, x = finite q := by
  cases x with
  | finite q => exact ⟨q, rfl⟩
  | infinite | undefined => cases h

theorem infinite_le_finite (q : Rat) : Scalar.le (infinite true) (finite q) = true :=
  rfl

theorem finite_le_infinite (q : Rat) : Scalar.le (finite q) (infinite false) = true :=
  rfl

/-- A sum of rationals is what it is among the rationals. -/
theorem sum_finite (xs : List Rat) : Scalar.sum (xs.map finite) = finite xs.sum := by
  have hfold (a : Rat) : (xs.map finite).foldl (· + ·) (finite a) = finite (a + xs.sum) := by
    induction xs generalizing a with
    | nil => simp
    | cons x xs ih =>
      rw [List.map_cons, List.foldl_cons, finite_add_finite, ih, List.sum_cons, add_assoc]
  have h := hfold 0
  rwa [zero_add] at h

end Extended

end LinearProgram
