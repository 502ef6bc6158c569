import LinearProgram.Backend.Basic
import LinearProgram.Domain

/-! Why a call on a model fails. -/

namespace LinearProgram

inductive ModelError (α : Type) where
  | backend (operation : Operation) (source : BackendError)
  | unsupportedDomain (domain : Domain)
  | unknownDomain (name : String)
  | foreignVariable
  | staleVariable (column : ColumnId)
  | divisionByZero
  | nonFiniteConstant (value : α)
  | nonConstantOperand (name : String)
  | constantOutsideDomain (value : α) (domain : Domain)
  | duplicateName (name : String)
  | unknownName (name : String)
  | alreadySolved
  | notSolved
  | solutionUnavailable (column : ColumnId)
  | poisoned
  | snapshotMismatch (expectedRows expectedColumns rows columns : Nat)

namespace ModelError

variable {α : Type}

def code : ModelError α → String
  | backend .. => "BACKEND_REJECTED"
  | unsupportedDomain _ => "DOMAIN_UNSUPPORTED"
  | unknownDomain _ => "DOMAIN_UNKNOWN"
  | foreignVariable => "VARIABLE_FOREIGN"
  | staleVariable _ => "VARIABLE_STALE"
  | divisionByZero => "EXPR_DIVISION_BY_ZERO"
  | nonFiniteConstant _ => "EXPR_NON_FINITE"
  | nonConstantOperand _ => "EXPR_NON_CONSTANT"
  | constantOutsideDomain .. => "CONSTANT_OUTSIDE_DOMAIN"
  | duplicateName _ => "VARIABLE_DUPLICATE_NAME"
  | unknownName _ => "VARIABLE_UNKNOWN_NAME"
  | alreadySolved => "MODEL_ALREADY_SOLVED"
  | notSolved => "MODEL_NOT_SOLVED"
  | solutionUnavailable _ => "SOLUTION_UNAVAILABLE"
  | poisoned => "MODEL_POISONED"
  | snapshotMismatch .. => "SNAPSHOT_MISMATCH"

def message [Scalar α] : ModelError α → String
  | backend operation source =>
    "backend failed during " ++ operation.name ++ ": " ++ source.message
  | unsupportedDomain domain => "domain " ++ domain.name ++ " is not supported"
  | unknownDomain name => "unknown domain name '" ++ name ++ "'"
  | foreignVariable => "variable belongs to another model"
  | staleVariable column => "variable " ++ column.text ++ " predates a model reload"
  | divisionByZero => "division by a zero constant"
  | nonFiniteConstant value => "constant factor " ++ Scalar.text value ++ " is not finite"
  | nonConstantOperand name => "operand '" ++ name ++ "' is not a known constant"
  | constantOutsideDomain value domain =>
    "constant " ++ Scalar.text value ++ " lies outside domain " ++ domain.name
  | duplicateName name => "a variable named '" ++ name ++ "' already exists"
  | unknownName name => "no variable named '" ++ name ++ "'"
  | alreadySolved => "model has already been solved"
  | notSolved => "model has not been solved"
  | solutionUnavailable column => "solution holds no value for variable " ++ column.text
  | poisoned => "model is unusable after an earlier backend failure"
  | snapshotMismatch expectedRows expectedColumns rows columns =>
    "snapshot records " ++ Nat.repr expectedRows ++ " rows and " ++ Nat.repr expectedColumns ++
      " columns, backend holds " ++ Nat.repr rows ++ " and " ++ Nat.repr columns

end ModelError

def Domain.check {α : Type} (d : Domain) : Except (ModelError α) Domain :=
  if d.isSupported then .ok d else .error (.unsupportedDomain d)

/-- An unknown name is given back trimmed. -/
def Domain.ofName {α : Type} (s : String) : Except (ModelError α) Domain :=
  match Domain.ofName? s with
  | some d => .ok d
  | none => .error (.unknownDomain (String.ofList (Text.trim s.toList)))

end LinearProgram
