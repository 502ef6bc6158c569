import LinearProgram.Engine.Relaxation

/-! Programs with integer variables. Where the best point without regard to integrality has an
integer variable between two whole numbers, it lies at or below the one or at or above the
other. -/

namespace LinearProgram.Engine

namespace Program

/-- The first integer variable whose value is not whole. -/
def fractional? (p : Program Rat) (point : List Rat) : Option (Nat × Rat) :=
  ((List.zip p.ranges point).zipIdx.find? fun e => e.1.1.integer && e.1.2.den != 1).map
    fun e => (e.2, e.1.2)

def modifyRange (p : Program Rat) (i : Nat)
    (f : Range Rat → Range Rat) : Program Rat :=
  { p with ranges := p.ranges.modify i f }

def below (p : Program Rat) (i : Nat) (x : Rat) : Program Rat :=
  p.modifyRange i fun v => { v with upper := some x.floor }

def above (p : Program Rat) (i : Nat) (x : Rat) : Program Rat :=
  p.modifyRange i fun v => { v with lower := some x.ceil }

def isBetter (p : Program Rat) (point : List Rat) : Option (List Rat) → Bool
  | none => true
  | some best => p.objectiveAt best < p.objectiveAt point

/-- The best whole point, if one is better than the best so far. -/
def search : Nat → Program Rat → Option (List Rat) → Option (List Rat)
  | 0, _, best => best
  | fuel + 1, p, best =>
    match p.relax with
    | .infeasible | .unbounded => best
    | .optimal point =>
      if !p.isBetter point best then best
      else match p.fractional? point with
        | none => some point
        | some (i, x) => search fuel (p.above i x) (search fuel (p.below i x) best)

/-- The number of times that the range of an integer variable can become smaller. -/
def width (r : Range Rat) : Nat :=
  match r.integer, r.lower, r.upper with
  | true, some l, some u => (u.ceil - l.floor).toNat
  | _, _, _ => 0

/-- Every branch takes at least one value from the range of an integer variable. -/
def branches (p : Program Rat) : Nat :=
  p.ranges.foldl (fun n r => n + width r) 1

/-- Integer variables have both bounds. -/
def solve (p : Program Rat) : Verdict :=
  match p.relax with
  | .infeasible => .infeasible
  | .unbounded => .unbounded
  | .optimal _ =>
    match search p.branches p none with
    | some point => .optimal point
    | none => .infeasible

end Program

end LinearProgram.Engine
