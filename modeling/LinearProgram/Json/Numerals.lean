import LinearProgram.Json.Decode

/-! Two readers of numbers. One takes the number nearest to the text. The other one, which is
quicker and which programs are read with, rounds the digits first and then what a power of ten makes
of them, so that what it finds may be next to the nearest number. -/

namespace LinearProgram.Json

open Binary64 Decimal

def toNumeral? (numeral : List Char) : Option Numeral :=
  match numeral with
  | '-' :: cs => readDecimal? true cs
  | cs => readDecimal? false cs

@[reducible]
def exactReader : NumberReader where
  read? numeral := do
    let x := (← toNumeral? numeral).toFloat
    if isFinite x then some x else none

/-- Digits are taken as long as what they make, after `n`, fits in 64 bits. The rest is left. -/
def takeDigits (n : Nat) : List Char → Nat × List Char
  | [] => (n, [])
  | c :: cs =>
    let next := 10 * n + (c.toNat - '0'.toNat)
    if next < UInt64.size then takeDigits next cs else (n, c :: cs)

def powerOfTen (n : Nat) : Float :=
  ofDecimal false 1 n

/-- Divides by the largest power of ten there is, again and again while there is something left. -/
def shrink : Nat → Float → Float
  | 0, x => x
  | k + 1, x => if x == 0 then x else shrink k (x / powerOfTen 308)

/-- `x * 10 ^ e`, by powers of ten up to the largest one. -/
def scale? (x : Float) (e : Int) : Option Float :=
  if 0 ≤ e then
    if e ≤ 308 then
      let y := x * powerOfTen e.toNat
      if isFinite y then some y else none
    else if x == 0 then some x else none
  else
    let k := (e.natAbs - 1) / 308
    some (shrink k x / powerOfTen (e.natAbs - 308 * k))

def readScaled? (negative : Bool) (cs : List Char) : Option Float := do
  let (whole, r) := digitRun cs
  let (part, r) := splitFraction r
  let (n, wholeLeft) := takeDigits 0 whole
  let (n, partLeft) := takeDigits n part
  let e := (← readPower? r) + wholeLeft.length - (part.length - partLeft.length)
  let x ← scale? (ofDecimal false n 0) e
  return if negative then -x else x

instance scaledReader : NumberReader where
  read?
    | '-' :: cs => readScaled? true cs
    | cs => readScaled? false cs

end LinearProgram.Json
