import LinearProgram.Decimal.Layout
import LinearProgram.Scalar

/-! Binary floating point as the numbers of a program. -/

namespace LinearProgram

instance : Scalar Float where
  zero := Binary64.ofBitPattern false 0
  one := Binary64.ofBitPattern false (1023 * Binary64.fractionSize)
  sumStart := Binary64.ofBitPattern true 0
  lt a b := decide (a < b)
  le a b := decide (a ≤ b)
  isNaN := Binary64.isNaN
  isFinite := Binary64.isFinite
  isIntegral := Binary64.isIntegral
  text := Decimal.plain.text

end LinearProgram
