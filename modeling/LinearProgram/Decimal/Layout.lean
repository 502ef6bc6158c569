import LinearProgram.Binary64.Nearest
import LinearProgram.Decimal.Shortest

/-! How a number is written out: its shortest digits placed around a point, or a fixed count of
decimal places. -/

namespace LinearProgram.Decimal

def zeros (n : Nat) : List Char :=
  List.replicate n '0'

def digitChars (n : Nat) : List Char :=
  Nat.toDigits 10 n

/-- `digits * 10 ^ exponent` without a power of ten. -/
def Digits.positional (d : Digits) : List Char :=
  let cs := digitChars d.digits
  let places := (-d.exponent).toNat
  if 0 ≤ d.exponent then cs ++ zeros d.exponent.toNat
  else if places < cs.length then
    cs.take (cs.length - places) ++ '.' :: cs.drop (cs.length - places)
  else '0' :: '.' :: (zeros (places - cs.length) ++ cs)

/-- The power of ten of the leading digit. -/
def Digits.magnitude (d : Digits) : Int :=
  d.exponent + (digitChars d.digits).length - 1

/-- One digit before the point and a signed power of ten. -/
def Digits.scientific (d : Digits) : List Char :=
  let sign := if d.magnitude < 0 then '-' else '+'
  let power := 'e' :: sign :: digitChars d.magnitude.natAbs
  match digitChars d.digits with
  | [] => power
  | [c] => c :: power
  | c :: cs => c :: '.' :: (cs ++ power)

structure Layout where
  tie : Tie
  /-- The magnitudes that are written without a power of ten. -/
  positional : Int → Bool
  /-- What follows a number that is written without point and without power. -/
  whole : List Char
  nan : List Char
  infinity : List Char
  minusInfinity : List Char

/-- Never a power of ten, and no point in a whole number. -/
def plain : Layout where
  tie := .up
  positional _ := true
  whole := []
  nan := "NaN".toList
  infinity := "inf".toList
  minusInfinity := "-inf".toList

def signed (x : Float) (cs : List Char) : List Char :=
  if Binary64.isNegative x then '-' :: cs else cs

def Layout.magnitudeChars (l : Layout) (d : Digits) : List Char :=
  if l.positional d.magnitude then
    if 0 ≤ d.exponent then d.positional ++ l.whole else d.positional
  else d.scientific

def Layout.chars (l : Layout) (x : Float) : List Char :=
  if Binary64.isNaN x then l.nan
  else if !Binary64.isFinite x then
    if Binary64.isNegative x then l.minusInfinity else l.infinity
  else if Binary64.mantissa x = 0 then signed x ('0' :: l.whole)
  else signed x (l.magnitudeChars (shortest l.tie x))

def Layout.text (l : Layout) (x : Float) : String :=
  String.ofList (l.chars x)

/-- Exactly `places` digits after the point; a tie goes to the even last digit. -/
def fixed (places : Nat) (x : Float) : String :=
  if !Binary64.isFinite x then plain.text x
  else
    let e := Binary64.exponent x
    let n := Binary64.roundDiv (Binary64.mantissa x * Nat.pow 2 e.toNat * Nat.pow 10 places)
      (Nat.pow 2 (-e).toNat)
    let cs := digitChars n
    let padded := zeros (places + 1 - cs.length) ++ cs
    let whole := padded.take (padded.length - places)
    let decimals := padded.drop (padded.length - places)
    String.ofList (signed x (if places = 0 then whole else whole ++ '.' :: decimals))

end LinearProgram.Decimal
