import LinearProgram.Binary64.Parts

/-! The shortest decimal that reads back to a given binary64 number. The numbers that round to
`m * 2 ^ q` fill an interval around it; the coarsest power-of-ten grid with a point in that
interval gives the digits, and of two such points the nearer one is taken. -/

namespace LinearProgram.Decimal

/-- Stands for `digits * 10 ^ exponent`. -/
structure Digits where
  digits : Nat
  exponent : Int

/-- Which of two equally near points is taken. -/
inductive Tie where
  | up
  | even

/-- The reals that round to one number, in units of `2 ^ scale`: those between `low` and `high`,
with the ends where `closed` says so. -/
structure Interval where
  low : Nat
  middle : Nat
  high : Nat
  closed : Bool
  scale : Int

/-- Below a power of two the neighbours are half as far away as above it. -/
def Interval.around (x : Float) : Interval :=
  let m := Binary64.mantissa x
  let powerOfTwo := m = Binary64.fractionSize ∧ 1 < Binary64.biasedExponent x
  { low := if powerOfTwo then 4 * m - 1 else 4 * m - 2
    middle := 4 * m
    high := 4 * m + 2
    closed := m % 2 = 0
    scale := Binary64.exponent x - 2 }

def within (closed : Bool) (a b : Nat) : Bool :=
  if closed then a ≤ b else a < b

/-- On the grid of multiples of `10 ^ k`, the number `n` of the interval's own units is the
multiple `n * unit k / step k`. -/
def Interval.unit (i : Interval) (k : Int) : Nat :=
  Nat.pow 2 i.scale.toNat * Nat.pow 10 (-k).toNat

def Interval.step (i : Interval) (k : Int) : Nat :=
  Nat.pow 2 (-i.scale).toNat * Nat.pow 10 k.toNat

/-- The point of the grid of multiples of `10 ^ k` that the interval holds, divided by
`10 ^ k`. -/
def Interval.gridPoint? (i : Interval) (tie : Tie) (k : Int) : Option Nat :=
  let unit := i.unit k
  let step := i.step k
  let d := i.middle * unit / step
  let below := within i.closed (i.low * unit) (d * step)
  let above := within i.closed ((d + 1) * step) (i.high * unit)
  match below, above with
  | false, false => none
  | true, false => some d
  | false, true => some (d + 1)
  | true, true =>
    let twice := 2 * (i.middle * unit)
    let half := (2 * d + 1) * step
    if twice < half then some d
    else if half < twice then some (d + 1)
    else match tie with
      | .up => some (d + 1)
      | .even => some (if d % 2 = 0 then d else d + 1)

def Interval.search (i : Interval) (tie : Tie) : Nat → Int → Digits
  | 0, k => ⟨i.middle * i.unit k / i.step k, k⟩
  | fuel + 1, k =>
    match i.gridPoint? tie k with
    | some d => ⟨d, k⟩
    | none => i.search tie fuel (k - 1)

/-- A power of ten that is above the whole interval. -/
def Interval.startExponent (i : Interval) : Int :=
  ((i.high.log2 + 1 : Nat) + i.scale) * 30103 / 100000 + 1

/-- The digits of a finite number other than zero. Seventeen digits tell any two numbers apart,
so the search ends within two dozen grids of its start. -/
def shortest (tie : Tie) (x : Float) : Digits :=
  let i := Interval.around x
  i.search tie 24 i.startExponent

end LinearProgram.Decimal
