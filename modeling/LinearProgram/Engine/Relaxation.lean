import LinearProgram.Engine.Dictionary
import LinearProgram.Engine.Program

/-! Programs without regard to integrality. Every variable is written in terms of nonnegative ones,
counted from a bound where it has one. -/

namespace LinearProgram.Engine

inductive Verdict where
  | optimal (point : List Rat)
  | infeasible
  | unbounded

/-- A variable as a constant plus a combination of nonnegative ones. -/
structure Shifted where
  origin : Rat
  parts : List (Nat × Rat)

/-- The variables in turn, with the nonnegative ones numbered from `n`. -/
def shiftFrom : Nat → List (Range Rat) → List Shifted
  | _, [] => []
  | n, v :: vs =>
    match v.lower, v.upper with
    | some l, _ => ⟨l, [(n, 1)]⟩ :: shiftFrom (n + 1) vs
    | none, some u => ⟨u, [(n, -1)]⟩ :: shiftFrom (n + 1) vs
    | none, none => ⟨0, [(n, 1), (n + 1, -1)]⟩ :: shiftFrom (n + 2) vs

def addPart (cs : List Rat) (p : Nat × Rat) : List Rat :=
  cs.modify p.1 (· + p.2)

/-- A linear expression in the nonnegative variables. -/
def combine (size : Nat) (shifted : List Shifted) (f : LinearRow Rat) : Combination :=
  f.entries.foldl
    (fun g t =>
      match shifted[t.1.offset]? with
      | none => g
      | some s =>
        { constant := g.constant + t.2 * s.origin
          coefficients := s.parts.foldl (fun cs p => addPart cs (p.1, t.2 * p.2)) g.coefficients })
    ⟨0, List.replicate size 0⟩

def Combination.negate (f : Combination) : Combination :=
  ⟨-f.constant, f.coefficients.map (-·)⟩

/-- What has to be nonnegative for `f` to stand in a relation to `bound`. -/
def slacks (f : Combination) (sense : Sense) (bound : Rat) : List Combination :=
  let above : Combination := { f with constant := f.constant - bound }
  match sense with
  | .lessEqual => [above.negate]
  | .greaterEqual => [above]
  | .equal => [above.negate, above]

/-- The distance to the upper bound, where a variable is counted from its lower one. -/
def rangeSlacks (size : Nat) (s : Shifted) (v : Range Rat) : List Combination :=
  match v.lower, v.upper with
  | some l, some u =>
    [⟨u - l, s.parts.foldl (fun cs p => addPart cs (p.1, -p.2)) (List.replicate size 0)⟩]
  | _, _ => []

namespace Program

def size (shifted : List Shifted) : Nat :=
  (shifted.flatMap (·.parts)).length

def dictionary (p : Program Rat) (shifted : List Shifted) : Dictionary :=
  let n := size shifted
  let objective := combine n shifted p.objective
  let slack :=
    (List.zipWith (rangeSlacks n) shifted p.ranges).flatten ++
      p.rows.flatMap fun r => slacks (combine n shifted r.expression) r.sense r.bound
  { nonbasic := List.range n
    basic := slack.zipIdx.map fun (f, i) => (n + i, f)
    objective := match p.direction with
      | .maximize => objective
      | .minimize => objective.negate }

def relax (p : Program Rat) : Verdict :=
  let shifted := shiftFrom 0 p.ranges
  let d := p.dictionary shifted
  match d.makeFeasible d.steps with
  | none => .infeasible
  | some d =>
    match d.makeOptimal d.steps with
    | none => .unbounded
    | some d => .optimal (shifted.map fun s =>
        s.parts.foldl (fun x p => x + p.2 * d.value p.1) s.origin)

def objectiveAt (p : Program Rat) (point : List Rat) : Rat :=
  let value := p.objective.entries.foldl
    (fun x t => x + t.2 * point.getD t.1.offset 0) (0 : Rat)
  match p.direction with
  | .maximize => value
  | .minimize => -value

end Program

end LinearProgram.Engine
