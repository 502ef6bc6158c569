import LinearProgram.Backend.Service
import LinearProgram.Engine.Exact

/-! The solvers that can be asked for. One engine is built in. -/

namespace LinearProgram

open Engine

/-- What is told of an engine's outcome. -/
def Problem.solution (p : Problem Float) (engine : String) : Outcome → Solution Float × List Event
  | .optimal values =>
    ({ status := .optimal
       optimalValue := some (p.objectiveValue values)
       values
       message := "Optimal solution found for '" ++ p.name ++ "'"
       statistics := p.statistics }, [])
  | .infeasible =>
    ({ status := .infeasible
       message := "Problem is infeasible: no solution satisfies all constraints"
       statistics := p.statistics }, [])
  | .unbounded =>
    ({ status := .unbounded
       message := "Problem is unbounded: objective can be improved infinitely"
       statistics := p.statistics }, [])
  | .failed reason =>
    ({ status := .error
       message := engine ++ " failed: " ++ reason
       statistics := p.statistics }, [.unclassifiedResult engine reason])

def Config.hasLimits (c : Config Float) : Bool :=
  c.timeLimit.isSome || c.gapTolerance.isSome

/-- A solver that hands each program without defects to an engine. -/
def engineService (name : String) (engine : Program Float → Outcome) : SolverService Float where
  name
  supportsInteger := true
  solve p := do
    p.validate
    let ignored := if p.config.hasLimits then [.ignoredLimits name] else []
    let (solution, events) := p.solution name (engine p.program)
    return (solution, ignored ++ events)

def builtIn : SolverService Float :=
  engineService "microlp" Engine.run

/-- Left to itself, the choice falls on what is there. -/
def SolverChoice.service? : SolverChoice → Option (SolverService Float)
  | .auto | .microlp => some builtIn
  | .highs | .coinCbc => none

def SolverChoice.service (c : SolverChoice) :
    Except SolverError (SolverService Float × List Event) :=
  match c.service? with
  | some s => .ok (s, [.selectedSolver c s.name])
  | none => .error (.notAvailable (c.text ++ " support was not compiled into this build"))

def ServiceBackend.ofConfig (config : Config Float) :
    Except SolverError (ServiceBackend Float × List Event) := do
  let (service, events) ← config.solver.service
  return ({ service, problem := { config } }, events)

end LinearProgram
