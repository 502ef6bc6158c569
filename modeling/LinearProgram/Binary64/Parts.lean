/-! The fields of a binary64 number and the exact rational it stands for. -/

namespace LinearProgram.Binary64

/-- Two to the power 52. -/
def fractionSize : Nat := 4503599627370496

/-- Two to the power 63. A number is negative if its bits reach so far. -/
def signBit : Nat := 9223372036854775808

/-- The bits of positive infinity. -/
def infinityBits : Nat := 2047 * fractionSize

def biasedExponent (x : Float) : Nat :=
  x.toBits.toNat / fractionSize % 2048

def fraction (x : Float) : Nat :=
  x.toBits.toNat % fractionSize

def isNegative (x : Float) : Bool :=
  signBit ≤ x.toBits.toNat

def isFinite (x : Float) : Bool :=
  biasedExponent x < 2047

def isNaN (x : Float) : Bool :=
  biasedExponent x == 2047 && fraction x != 0

/-- A finite number is `mantissa x * 2 ^ exponent x` up to its sign. -/
def mantissa (x : Float) : Nat :=
  if biasedExponent x = 0 then fraction x else fractionSize + fraction x

def exponent (x : Float) : Int :=
  (max (biasedExponent x) 1 : Nat) - 1075

def isIntegral (x : Float) : Bool :=
  isFinite x && mantissa x % Nat.pow 2 (-exponent x).toNat == 0

def toRat (x : Float) : Rat :=
  let magnitude : Rat :=
    mkRat (mantissa x * Nat.pow 2 (exponent x).toNat : Nat) (Nat.pow 2 (-exponent x).toNat)
  if isNegative x then -magnitude else magnitude

end LinearProgram.Binary64
