import LinearProgram.Binary64.Nearest

/-! Reading decimal numerals. -/

namespace LinearProgram.Decimal

def digitsValue (ds : List Char) : Nat :=
  ds.foldl (fun n c => 10 * n + (c.toNat - '0'.toNat)) 0

/-- The digits at the front, and what follows them. -/
def digitRun (cs : List Char) : List Char × List Char :=
  (cs.takeWhile Char.isDigit, cs.dropWhile Char.isDigit)

/-- Stands for `digits * 10 ^ exponent` up to its sign. -/
structure Numeral where
  negative : Bool
  digits : Nat
  exponent : Int
deriving DecidableEq

def Numeral.toFloat (n : Numeral) : Float :=
  Binary64.ofDecimal n.negative n.digits n.exponent

/-- A sign at the front: whether it is a minus, and the rest. -/
def splitSign : List Char → Bool × List Char
  | '-' :: cs => (true, cs)
  | '+' :: cs => (false, cs)
  | cs => (false, cs)

/-- All of the text must be an optional sign and at least one digit. -/
def readInt? (cs : List Char) : Option Int :=
  let (negative, rest) := splitSign cs
  let (ds, left) := digitRun rest
  if ds.isEmpty || !left.isEmpty then none
  else some (if negative then -(digitsValue ds : Int) else digitsValue ds)

/-- The power of ten at the end of a numeral, zero where there is none. -/
def readPower? : List Char → Option Int
  | [] => some 0
  | c :: cs => if c = 'e' ∨ c = 'E' then readInt? cs else none

/-- A fraction at the front: its digits and the rest. -/
def splitFraction : List Char → List Char × List Char
  | '.' :: cs => digitRun cs
  | cs => ([], cs)

/-- Digits with an optional point among, before or after them, then an optional power of ten. -/
def readDecimal? (negative : Bool) (cs : List Char) : Option Numeral :=
  let (whole, r) := digitRun cs
  let (part, r) := splitFraction r
  if whole.isEmpty && part.isEmpty then none
  else (readPower? r).map fun power =>
    { negative, digits := digitsValue (whole ++ part), exponent := power - part.length }

/-- A numeral, or the name of an infinity or of NaN in any case. -/
def readFloatChars? (cs : List Char) : Option Float :=
  let (negative, rest) := splitSign cs
  let name := rest.map Char.toLower
  if name = "inf".toList ∨ name = "infinity".toList then
    some (Binary64.ofBitPattern negative Binary64.infinityBits)
  else if name = "nan".toList then some Binary64.notANumber
  else (readDecimal? negative rest).map Numeral.toFloat

def readFloat? (s : String) : Option Float :=
  readFloatChars? s.toList

end LinearProgram.Decimal
