import LinearProgram.Problem.Basic

/-! What can be wrong with a program before any solver sees it. -/

namespace LinearProgram

inductive Defect (α : Type) where
  | objectiveColumn (column : Nat)
  | objectiveCoefficient (value : α)
  | rowColumn (row column columns : Nat)
  | rowCoefficient (row : Nat) (value : α)
  | rowBound (row : Nat)
  | columnBounds (column : Nat) (name : String) (lower upper : Option α)

variable {α : Type} [Scalar α]

namespace Defect

def message : Defect α → String
  | objectiveColumn column => "Objective references unknown column " ++ Nat.repr column
  | objectiveCoefficient value =>
    "Objective coefficient " ++ Scalar.text value ++ " is not finite"
  | rowColumn row column columns =>
    "Constraint " ++ Nat.repr row ++ " references column " ++ Nat.repr column ++
      " but problem has " ++ Nat.repr columns ++ " variables"
  | rowCoefficient row value =>
    "Constraint " ++ Nat.repr row ++ " has non-finite coefficient " ++ Scalar.text value
  | rowBound row => "Constraint " ++ Nat.repr row ++ " has a NaN right-hand side"
  | columnBounds column name lower upper =>
    "Variable " ++ Nat.repr column ++ " '" ++ name ++ "' has lower bound (" ++ lowerText lower ++
      ") > upper bound (" ++ upperText upper ++ ")"

def report (ds : List (Defect α)) : String :=
  "; ".intercalate (ds.map message)

end Defect

def objectiveDefects (columns : Nat) (t : Nat × α) : List (Defect α) :=
  (if columns ≤ t.1 then [.objectiveColumn t.1] else []) ++
    (if Scalar.isFinite t.2 then [] else [.objectiveCoefficient t.2])

def termDefects (columns row : Nat) (t : Nat × α) : List (Defect α) :=
  (if columns ≤ t.1 then [.rowColumn row t.1 columns] else []) ++
    (if Scalar.isFinite t.2 then [] else [.rowCoefficient row t.2])

def constraintDefects (columns : Nat) (c : Constraint α) (row : Nat) : List (Defect α) :=
  c.terms.flatMap (termDefects columns row) ++
    (if Scalar.isNaN c.bound then [.rowBound row] else [])

def columnDefects (c : Column α) (column : Nat) : List (Defect α) :=
  if boundsConsistent c.lower c.upper then []
  else [.columnBounds column c.name c.lower c.upper]

/-- Those of the objective first, then those of the rows, then those of the columns. -/
def Problem.defects (p : Problem α) : List (Defect α) :=
  p.objective.terms.flatMap (objectiveDefects p.columns.length) ++
    (p.constraints.zipIdx.flatMap fun (c, i) => constraintDefects p.columns.length c i) ++
    p.columns.zipIdx.flatMap fun (c, i) => columnDefects c i

end LinearProgram
