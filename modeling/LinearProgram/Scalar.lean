/-! The numbers a program is stated over: exact rationals, or binary floating point, where sums
round and a value may be infinite or undefined. Everything that builds, checks or evaluates a
program asks for no more than this. -/

namespace LinearProgram

class Scalar (α : Type) extends Zero α, One α, Add α, Neg α, Mul α, Div α, BEq α where
  /-- Where a sum starts: adding it changes no value, not even the sign of a zero. -/
  sumStart : α
  lt : α → α → Bool
  le : α → α → Bool
  isNaN : α → Bool
  isFinite : α → Bool
  isIntegral : α → Bool
  text : α → String

namespace Scalar

variable {α : Type} [Scalar α]

def sum (xs : List α) : α :=
  xs.foldl (· + ·) sumStart

end Scalar

instance : Scalar Rat where
  zero := 0
  one := 1
  sumStart := 0
  lt a b := decide (a < b)
  le a b := decide (a ≤ b)
  isNaN _ := false
  isFinite _ := true
  isIntegral a := a.den == 1
  text a := toString a

end LinearProgram
