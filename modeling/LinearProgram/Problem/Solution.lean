import LinearProgram.Problem.Basic
import LinearProgram.Status

/-! What a solver gives back. -/

namespace LinearProgram

structure Statistics where
  columns : Nat := 0
  constraints : Nat := 0
  /-- Integer columns that are not binary. -/
  integers : Nat := 0
  binaries : Nat := 0

def Problem.statistics {α : Type} (p : Problem α) : Statistics where
  columns := p.columns.length
  constraints := p.constraints.length
  integers := p.integerCount - p.binaryCount
  binaries := p.binaryCount

structure Solution (α : Type) where
  status : SolverStatus
  optimalValue : Option α := none
  values : List α := []
  message : String
  statistics : Statistics

def Solution.isOptimal {α : Type} (s : Solution α) : Bool :=
  s.status == .optimal

end LinearProgram
