/-! Linear programs over nonnegative variables, with exact numbers. Some variables are basic, each
with a row that gives it as a constant plus a combination of the others. The least eligible
variable is taken throughout, so no set of basic variables comes up twice. -/

namespace LinearProgram.Engine

structure Combination where
  constant : Rat
  coefficients : List Rat

structure Dictionary where
  nonbasic : List Nat
  basic : List (Nat × Combination)
  /-- To be made as large as possible. -/
  objective : Combination

namespace Combination

def coefficient (f : Combination) (i : Nat) : Rat :=
  f.coefficients.getD i 0

/-- The row of a basic variable, solved for the nonbasic one at place `i`. The basic variable takes
that place. -/
def solveFor (f : Combination) (i : Nat) : Combination :=
  let a := f.coefficient i
  { constant := -f.constant / a
    coefficients := (f.coefficients.map (-· / a)).set i (1 / a) }

/-- Puts the solved row in for the variable at place `i`. -/
def substitute (f : Combination) (i : Nat) (solved : Combination) : Combination :=
  let a := f.coefficient i
  { constant := f.constant + a * solved.constant
    coefficients :=
      List.zipWith (· + ·) (f.coefficients.set i 0) (solved.coefficients.map (a * ·)) }

end Combination

namespace Dictionary

def leastBy {σ : Type} (key : σ → Rat × Nat) : List σ → Option σ
  | [] => none
  | x :: xs =>
    match leastBy key xs with
    | none => some x
    | some y =>
      let (a, i) := key x
      let (b, j) := key y
      if a < b ∨ (a = b ∧ i < j) then some x else some y

/-- The place of the least nonbasic variable with a positive coefficient. -/
def entering? (d : Dictionary) (f : Combination) : Option Nat :=
  let places := (List.zip d.nonbasic f.coefficients).zipIdx.filter fun e => 0 < e.1.2
  (leastBy (fun e => (0, e.1.1)) places).map (·.2)

/-- The basic variable in row `r` and the nonbasic one at place `i` change places. -/
def pivot (d : Dictionary) (r i : Nat) : Dictionary :=
  match d.basic[r]? with
  | none => d
  | some (leaving, f) =>
    let solved := f.solveFor i
    { nonbasic := d.nonbasic.set i leaving
      basic :=
        (d.basic.map fun (v, g) => (v, g.substitute i solved)).set r (d.nonbasic.getD i 0, solved)
      objective := d.objective.substitute i solved }

def negativeRow? (d : Dictionary) : Option (Nat × Combination) :=
  let rows := d.basic.zipIdx.filter fun e => e.1.2.constant < 0
  (leastBy (fun e => (0, e.1.1)) rows).map fun e => (e.2, e.1.2)

/-- Makes every constant nonnegative, or shows that no values do: a row with a negative constant
and no positive coefficient. -/
def makeFeasible : Nat → Dictionary → Option Dictionary
  | 0, d => some d
  | fuel + 1, d =>
    match d.negativeRow? with
    | none => some d
    | some (r, f) =>
      match d.entering? f with
      | none => none
      | some i => makeFeasible fuel (d.pivot r i)

/-- The row that first stops the variable at place `i` from growing. -/
def leaving? (d : Dictionary) (i : Nat) : Option Nat :=
  let rows := d.basic.zipIdx.filter fun e => e.1.2.coefficient i < 0
  (leastBy (fun e => (e.1.2.constant / -e.1.2.coefficient i, e.1.1)) rows).map (·.2)

/-- Improves the objective until nothing more can, or shows that it has no limit: a variable that
improves it and that no row stops. -/
def makeOptimal : Nat → Dictionary → Option Dictionary
  | 0, d => some d
  | fuel + 1, d =>
    match d.entering? d.objective with
    | none => some d
    | some i =>
      match d.leaving? i with
      | none => none
      | some r => makeOptimal fuel (d.pivot r i)

/-- A bound on the number of sets of basic variables. -/
def steps (d : Dictionary) : Nat :=
  Nat.pow 2 (d.nonbasic.length + d.basic.length)

/-- The value of a variable when the nonbasic ones are zero. -/
def value (d : Dictionary) (v : Nat) : Rat :=
  ((d.basic.lookup v).map (·.constant)).getD 0

end Dictionary

end LinearProgram.Engine
