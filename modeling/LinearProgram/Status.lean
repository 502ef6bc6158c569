/-! How a run of a solver ended: in the solver's own terms, and in the few that all solvers
share. -/

namespace LinearProgram

inductive SolverStatus where
  | optimal
  | feasible
  | infeasible
  | unbounded
  | timeLimit
  | iterationLimit
  | nodeLimit
  | error
  | interrupted
  /-- A result code of the solver that has no name here. -/
  | code (n : Int)
deriving DecidableEq

def SolverStatus.text : SolverStatus → String
  | .optimal => "Optimal"
  | .feasible => "Feasible"
  | .infeasible => "Infeasible"
  | .unbounded => "Unbounded"
  | .timeLimit => "Time Limit Reached"
  | .iterationLimit => "Iteration Limit Reached"
  | .nodeLimit => "Node Limit Reached"
  | .error => "Error"
  | .interrupted => "Interrupted"
  | .code n => "Code " ++ Int.repr n

inductive Status where
  | optimal
  | infeasible
  | unbounded
  | unknown
deriving DecidableEq

def Status.text : Status → String
  | .optimal => "Optimal"
  | .infeasible => "Infeasible"
  | .unbounded => "Unbounded"
  | .unknown => "Unknown"

def SolverStatus.shared : SolverStatus → Status
  | .optimal => .optimal
  | .infeasible => .infeasible
  | .unbounded => .unbounded
  | _ => .unknown

end LinearProgram
