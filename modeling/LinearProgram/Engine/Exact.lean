import LinearProgram.Binary64.Arithmetic
import LinearProgram.Engine.BranchAndBound

/-! Solving programs over floating point numbers in exact arithmetic. Integer variables range over
32-bit numbers. -/

namespace LinearProgram.Engine

/-- Why a program does not come to be solved. -/
inductive Rejection where
  | infeasible
  | integerRange
deriving DecidableEq

def smallest : Int := -2147483648

def largest : Int := 2147483647

def inWord (n : Int) : Bool :=
  smallest ≤ n && n ≤ largest

def isBelowAll (x : Float) : Bool :=
  !Binary64.isFinite x && Binary64.isNegative x

def isAboveAll (x : Float) : Bool :=
  !Binary64.isFinite x && !Binary64.isNegative x

/-- The least whole number that a lower bound allows, if it is in range. -/
def integerLower? : Option Float → Option Int
  | none => some smallest
  | some x =>
    if isBelowAll x then some smallest
    else if isAboveAll x then none
    else (some (Binary64.toRat x).ceil).filter inWord

/-- The largest whole number that an upper bound allows, if it is in range. -/
def integerUpper? : Option Float → Option Int
  | none => some largest
  | some x =>
    if isAboveAll x then some largest
    else if isBelowAll x then none
    else (some (Binary64.toRat x).floor).filter inWord

/-- A bound out of range comes before bounds with no whole number between them. -/
def integerBounds (lower upper : Option Float) : Except Rejection (Int × Int) :=
  match integerLower? lower, integerUpper? upper with
  | some l, some u => if u < l then .error .infeasible else .ok (l, u)
  | _, _ => .error .integerRange

/-- A lower bound above everything or an upper bound below everything leaves no value, as crossed
bounds do. An infinity on its own side is no bound. -/
def realRange (lower upper : Option Float) : Range Rat :=
  if (lower.map isAboveAll).getD false || (upper.map isBelowAll).getD false then
    ⟨false, some 1, some 0⟩
  else
    let finite (b : Option Float) : Option Rat := (b.filter Binary64.isFinite).map Binary64.toRat
    ⟨false, finite lower, finite upper⟩

def Range.exact (r : Range Float) : Except Rejection (Range Rat) :=
  if r.integer then
    (integerBounds r.lower r.upper).map fun (l, u) => ⟨true, some l, some u⟩
  else .ok (realRange r.lower r.upper)

def exactRow (f : LinearRow Float) : LinearRow Rat :=
  LinearRow.ofTerms (f.entries.map fun t => (t.1, Binary64.toRat t.2))

/-- A row with an infinite bound holds of everything or of nothing. -/
def Row.exact (r : Row Float) : Except Rejection (List (Row Rat)) :=
  if Binary64.isFinite r.bound then
    .ok [⟨exactRow r.expression, r.sense, Binary64.toRat r.bound⟩]
  else match r.sense, Binary64.isNegative r.bound with
    | .lessEqual, false => .ok []
    | .greaterEqual, true => .ok []
    | _, _ => .error .infeasible

def Program.exact (p : Program Float) : Except Rejection (Program Rat) := do
  let ranges ← p.ranges.mapM Range.exact
  let rows ← p.rows.mapM Row.exact
  return {
    ranges
    direction := p.direction
    objective := exactRow p.objective
    rows := rows.flatten }

/-- What an engine comes back with. -/
inductive Outcome where
  | optimal (values : List Float)
  | infeasible
  | unbounded
  | failed (reason : String)

def rangeFailure : String :=
  "An unexpected error occurred while running the optimizer: " ++
    "Microlp only supports integer bounds within the i32 range."

def run (p : Program Float) : Outcome :=
  match p.exact with
  | .error .infeasible => .infeasible
  | .error .integerRange => .failed rangeFailure
  | .ok p =>
    match p.solve with
    | .optimal point => .optimal (point.map Binary64.ofRat)
    | .infeasible => .infeasible
    | .unbounded => .unbounded

end LinearProgram.Engine
