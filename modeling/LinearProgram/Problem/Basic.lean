import LinearProgram.Column
import LinearProgram.Config

/-! A program in buffered form: columns, constraint rows over their offsets, and an objective. -/

namespace LinearProgram

inductive Sense where
  | lessEqual
  | equal
  | greaterEqual
deriving DecidableEq

def Sense.text : Sense → String
  | .lessEqual => "<="
  | .equal => "="
  | .greaterEqual => ">="

inductive Direction where
  | minimize
  | maximize
deriving DecidableEq

def Direction.name : Direction → String
  | .minimize => "Minimize"
  | .maximize => "Maximize"

/-- Offsets of columns with coefficients, in any order and with repetitions. -/
abbrev Terms (α : Type) := List (Nat × α)

structure Objective (α : Type) where
  direction : Direction := .minimize
  terms : Terms α := []
deriving BEq

structure Constraint (α : Type) where
  sense : Sense
  terms : Terms α
  bound : α
  name : String := ""
deriving BEq

structure Problem (α : Type) where
  name : String := ""
  objective : Objective α := {}
  constraints : List (Constraint α) := []
  columns : List (Column α) := []
  config : Config α := {}
deriving BEq

namespace Objective

variable {α : Type} [Scalar α]

/-- What the terms on one column add up to. -/
def coefficient (o : Objective α) (column : Nat) : α :=
  Scalar.sum ((o.terms.filter fun t => t.1 = column).map (·.2))

end Objective

namespace Problem

variable {α : Type}

def integerCount (p : Problem α) : Nat :=
  p.columns.countP Column.isInteger

def binaryCount (p : Problem α) : Nat :=
  p.columns.countP Column.isBinary

def isMixedInteger (p : Problem α) : Bool :=
  0 < p.integerCount

/-- A column past the end of the values counts as zero. -/
def objectiveValue [Scalar α] (p : Problem α) (values : List α) : α :=
  Scalar.sum (p.objective.terms.map fun t => t.2 * values[t.1]?.getD 0)

end Problem

end LinearProgram
