import LinearProgram.Binary64.Parts

/-! The binary64 number nearest to a quotient of whole numbers. -/

namespace LinearProgram.Binary64

/-- The whole number nearest to `num / den`, the even one of two. -/
def roundDiv (num den : Nat) : Nat :=
  let q := num / den
  let r := num % den
  if den < 2 * r ∨ (2 * r = den ∧ q % 2 = 1) then q + 1 else q

/-- The largest `e` with `2 ^ e ≤ num / den`. -/
def floorLog (num den : Nat) : Int :=
  let e : Int := num.log2 - den.log2
  if num * Nat.pow 2 (-e).toNat < den * Nat.pow 2 e.toNat then e - 1 else e

/-- Past the largest finite number this is the pattern of infinity. A quotient that rounds up to
a power of two carries into the exponent by itself. -/
def nearestBits (num den : Nat) : Nat :=
  if num = 0 then 0
  else
    let q := max (floorLog num den - 52) (-1074)
    let m := roundDiv (num * Nat.pow 2 (-q).toNat) (den * Nat.pow 2 q.toNat)
    min ((q + 1074).toNat * fractionSize + m) infinityBits

def ofBitPattern (negative : Bool) (bits : Nat) : Float :=
  Float.ofBits (UInt64.ofNat (if negative then signBit + bits else bits))

def ofRatio (negative : Bool) (num den : Nat) : Float :=
  ofBitPattern negative (nearestBits num den)

def infinity : Float :=
  ofBitPattern false infinityBits

def notANumber : Float :=
  ofBitPattern false (infinityBits + fractionSize / 2)

def ofRat (x : Rat) : Float :=
  ofRatio (x < 0) x.num.natAbs x.den

/-- `digits * 10 ^ exponent`. An exponent far outside the range of the format decides the result
before any power of ten is formed. -/
def ofDecimal (negative : Bool) (digits : Nat) (exponent : Int) : Float :=
  let size : Int := (digits.log2 + 1) * 302 / 1000 + 1
  if digits = 0 ∨ exponent + size < -330 then ofBitPattern negative 0
  else if 310 < exponent then ofBitPattern negative infinityBits
  else ofRatio negative (digits * Nat.pow 10 exponent.toNat) (Nat.pow 10 (-exponent).toNat)

end LinearProgram.Binary64
