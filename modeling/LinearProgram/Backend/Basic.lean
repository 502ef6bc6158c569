import LinearProgram.Backend.Error
import LinearProgram.Event
import LinearProgram.File.Store
import LinearProgram.Row

/-! What a model asks of the backend that holds its program. A backend only has to accept or
refuse each directive, and may change its own state either way. -/

namespace LinearProgram

/-- The directives that make a program grow. -/
inductive Directive (α : Type) where
  | addColumn
  | setColumnName (column : ColumnId) (name : String)
  | setInteger (column : ColumnId) (integer : Bool)
  | setBinary (column : ColumnId)
  | setBounds (column : ColumnId) (lower upper : Option α)
  | addRow (terms : List (Term α)) (sense : Sense) (bound : α)
  | setObjective (terms : List (Term α))

/-- What a backend can be asked for, by name. -/
inductive Operation where
  | addColumn
  | setColumnName
  | setInteger
  | setBinary
  | setBounds
  | addRow
  | setObjective
  | setMaximize
  | solve
  | solutionValues
  | saveModel
  | loadModel
deriving DecidableEq

def Operation.name : Operation → String
  | .addColumn => "add_column"
  | .setColumnName => "set_column_name"
  | .setInteger => "set_integer"
  | .setBinary => "set_binary"
  | .setBounds => "set_bounds"
  | .addRow => "add_row"
  | .setObjective => "set_objective"
  | .setMaximize => "set_maximize"
  | .solve => "solve"
  | .solutionValues => "solution_values"
  | .saveModel => "save_model"
  | .loadModel => "load_model"

def Directive.operation {α : Type} : Directive α → Operation
  | addColumn => .addColumn
  | setColumnName .. => .setColumnName
  | setInteger .. => .setInteger
  | setBinary _ => .setBinary
  | setBounds .. => .setBounds
  | addRow .. => .addRow
  | setObjective _ => .setObjective

/-- A request to a backend whose state is `β`. -/
abbrev Request (β γ : Type) := EStateM BackendError β γ

/-- A request that changes nothing where it fails. -/
def Request.step {β γ : Type} (f : β → Except BackendError (γ × β)) : Request β γ := fun b =>
  match f b with
  | .ok (a, b') => .ok a b'
  | .error e => .error e b

theorem Request.step_of_ok {β γ : Type} {f : β → Except BackendError (γ × β)} {b b' : β} {a : γ}
    (h : f b = .ok (a, b')) : Request.step f b = .ok a b' := by
  simp [Request.step, h]

theorem Request.step_of_error {β γ : Type} {f : β → Except BackendError (γ × β)} {b : β}
    {e : BackendError} (h : f b = .error e) : Request.step f b = .error e b := by
  simp [Request.step, h]

class Backend (α : outParam Type) (β : Type) where
  send : Directive α → Request β Unit
  setMaximize : β → β
  /-- Also gives what the solver reports meanwhile. -/
  solve : Request β (SolverStatus × List Event)
  values : β → Except BackendError (List α)
  columnCount : β → Nat
  rowCount : β → Nat
  column : β → ColumnId → Except BackendError (Column α)
  objectiveTerms : β → List (Term α)
  save : String → Files → Request β (Files × List Event)
  load : String → Files → Request β (List Event)

end LinearProgram
