import LinearProgram.Backend.Error
import LinearProgram.Event
import LinearProgram.Problem.Defect
import LinearProgram.Problem.Solution

/-! Solvers of buffered programs. -/

namespace LinearProgram

structure SolverService (α : Type) where
  name : String
  supportsInteger : Bool
  /-- Also gives what the solver reports meanwhile. -/
  solve : Problem α → Except SolverError (Solution α × List Event)

/-- Refuses a program with any defect, and lists all of them. -/
def Problem.validate {α : Type} [Scalar α] (p : Problem α) : Except SolverError Unit :=
  if p.defects.isEmpty then .ok () else .error (.invalidProblem (Defect.report p.defects))

theorem Problem.validate_eq_ok_iff {α : Type} [Scalar α] {p : Problem α} :
    p.validate = .ok () ↔ p.defects = [] := by
  simp only [validate]
  split <;> simp_all

/-- A solver that knows its answer beforehand. -/
structure Script (α : Type) where
  name : String := "scripted"
  supportsInteger : Bool := true
  validates : Bool := true
  status : SolverStatus := .optimal
  values : List α := []
  optimalValue : Option α := none
  message : String := "scripted"
  failure : Option SolverError := none

def Script.service {α : Type} [Scalar α] (s : Script α) : SolverService α where
  name := s.name
  supportsInteger := s.supportsInteger
  solve p := do
    if s.validates then p.validate
    match s.failure with
    | some e => throw e
    | none =>
      return ({
        status := s.status
        optimalValue := s.optimalValue
        values := s.values
        message := s.message
        statistics := p.statistics }, [])

end LinearProgram
