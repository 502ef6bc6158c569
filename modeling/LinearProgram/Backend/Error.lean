import LinearProgram.Identifier
import LinearProgram.Mps.Fault
import LinearProgram.Mps.Writer

/-! Why a backend or the solver behind it refuses. -/

namespace LinearProgram

inductive SolverError where
  | invalidProblem (report : String)
  | notAvailable (reason : String)
  | executionFailed (reason : String)
deriving DecidableEq

def SolverError.message : SolverError → String
  | invalidProblem report => "Invalid problem: " ++ report
  | notAvailable reason => "Solver not available: " ++ reason
  | executionFailed reason => "Solver execution failed: " ++ reason

/-- Why a directive is turned down. -/
inductive Refusal where
  | emptyName (column : ColumnId)
  | invalidBounds (lower upper : String) (column : ColumnId)
  | integerColumns (solver : String)
  | noSolution
  | unwritable (obstacle : Mps.Obstacle)
  /-- In the words of a backend of its own. -/
  | stated (reason : String)
deriving DecidableEq

def Refusal.message : Refusal → String
  | emptyName column => "empty name for column " ++ column.text
  | invalidBounds lower upper column =>
    "invalid bounds [" ++ lower ++ ", " ++ upper ++ "] for column " ++ column.text
  | integerColumns solver => solver ++ " cannot solve problems with integer columns"
  | noSolution => "no solution available"
  | unwritable obstacle => obstacle.message
  | stated reason => reason

inductive BackendError where
  | rejected (refusal : Refusal)
  | unknownColumn (column : ColumnId)
  | io
  | format (line : Nat) (fault : Mps.Fault)
  | json
  | solver (error : SolverError)
deriving DecidableEq

def BackendError.message : BackendError → String
  | rejected refusal => "backend rejected directive: " ++ refusal.message
  | unknownColumn column => "backend has no column " ++ column.text
  | io => "I/O error"
  | format line fault =>
    "malformed model file at line " ++ Nat.repr line ++ ": " ++ fault.message
  | json => "JSON model error"
  | solver error => error.message

end LinearProgram
