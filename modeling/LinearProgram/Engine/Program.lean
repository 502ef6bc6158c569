import LinearProgram.Problem.Basic
import LinearProgram.Row

/-! The program as an engine takes it: bounded variables, and rows with one coefficient for each
variable. -/

namespace LinearProgram.Engine

structure Range (α : Type) where
  integer : Bool
  lower : Option α
  upper : Option α

structure Row (α : Type) where
  expression : LinearRow α
  sense : Sense
  bound : α

structure Program (α : Type) where
  ranges : List (Range α)
  direction : Direction
  objective : LinearRow α
  rows : List (Row α)

end Engine

open Engine

variable {α : Type} [Scalar α]

/-- The terms by variable. Zero coefficients say nothing. -/
def Terms.expression (ts : Terms α) : LinearRow α :=
  LinearRow.ofTerms ((ts.filter fun t => !(t.2 == 0)).map fun t => (ColumnId.ofOffset t.1, t.2))

/-- A binary variable starts between zero and one, any other without bounds, and the bounds that
the column has take their place. -/
def Column.range (c : Column α) : Range α where
  integer := c.isInteger
  lower := c.lower <|> if c.isBinary then some 0 else none
  upper := c.upper <|> if c.isBinary then some 1 else none

def Problem.program (p : Problem α) : Program α where
  ranges := p.columns.map Column.range
  direction := p.objective.direction
  objective := Terms.expression p.objective.terms
  rows := p.constraints.map fun c => ⟨Terms.expression c.terms, c.sense, c.bound⟩

end LinearProgram
