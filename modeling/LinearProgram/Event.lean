import LinearProgram.Config
import LinearProgram.Domain
import LinearProgram.Identifier
import LinearProgram.Problem.Basic
import LinearProgram.Status

/-! What a model and its backend report about their work while they do it. -/

namespace LinearProgram

inductive Level where
  | trace
  | debug
  | info
  | warn
deriving DecidableEq

def Level.name : Level → String
  | .trace => "TRACE"
  | .debug => "DEBUG"
  | .info => "INFO"
  | .warn => "WARN"

inductive Event where
  | created
  | createdVariable (column : ColumnId) (name : String) (domain : Domain)
  | emittedRow (row : RowId) (terms : Nat) (sense : Sense) (bound : String)
  | addedConstraint (column bound : ColumnId) (sense : Sense)
  | setObjective (terms : Nat)
  | solving (columns rows : Nat)
  | solved (status : Status)
  | stopped (status : SolverStatus)
  | rejected (operation error : String)
  | loadedModel (path : String) (columns rows : Nat)
  | savedFile (path : String) (columns rows : Nat)
  | loadedFile (path : String) (columns rows : Nat)
  | selectedSolver (requested : SolverChoice) (solver : String)
  | ignoredLimits (solver : String)
  | unclassifiedResult (solver error : String)

inductive EventValue where
  | text (s : String)
  | number (n : Nat)

namespace Event

def level : Event → Level
  | emittedRow .. => .trace
  | created | createdVariable .. | addedConstraint .. | setObjective .. => .debug
  | savedFile .. | loadedFile .. | selectedSolver .. | ignoredLimits .. => .debug
  | solving .. | solved .. | loadedModel .. => .info
  | stopped .. | rejected .. | unclassifiedResult .. => .warn

def message : Event → String
  | created => "Created model"
  | createdVariable .. => "Created variable"
  | emittedRow .. => "Emitted row"
  | addedConstraint .. => "Added constraint"
  | setObjective .. => "Set objective function"
  | solving .. => "Solving model"
  | solved .. => "Solve finished"
  | stopped .. => "Solver stopped without a definite answer"
  | rejected .. => "Backend rejected directive; model is no longer usable"
  | loadedModel .. | loadedFile .. => "Loaded model"
  | savedFile .. => "Saved model"
  | selectedSolver .. => "Selected solver"
  | ignoredLimits solver =>
    "Ignoring time limit and gap tolerance; " ++ solver ++ " has no such parameters"
  | unclassifiedResult .. => "Solver stopped with an unclassified result"

def about (component operation : String) (fields : List (String × EventValue)) :
    List (String × EventValue) :=
  ("component", .text component) :: ("operation", .text operation) :: fields

def counts (path : String) (columns rows : Nat) : List (String × EventValue) :=
  [("path", .text path), ("columns", .number columns), ("rows", .number rows)]

def fields : Event → List (String × EventValue)
  | created => about "model" "new" []
  | createdVariable column name domain =>
    about "model" "create"
      [("column", .text column.text), ("name", .text name), ("domain", .text domain.name)]
  | emittedRow row terms sense bound =>
    about "model" "add_row"
      [("row", .text row.text), ("terms", .number terms), ("sense", .text sense.text),
        ("rhs", .text bound)]
  | addedConstraint column bound sense =>
    about "model" "relate"
      [("variable", .text column.text), ("bound", .text bound.text), ("sense", .text sense.text)]
  | setObjective terms =>
    about "model" "set_objective" [("sense", .text "maximize"), ("terms", .number terms)]
  | solving columns rows =>
    about "model" "solve" [("columns", .number columns), ("rows", .number rows)]
  | solved status => about "model" "solve" [("status", .text status.text)]
  | stopped status => about "model" "solve" [("backend_status", .text status.text)]
  | rejected operation error => about "model" operation [("error", .text error)]
  | loadedModel path columns rows => about "model" "load_model" (counts path columns rows)
  | savedFile path columns rows => about "persist" "save" (counts path columns rows)
  | loadedFile path columns rows => about "persist" "load" (counts path columns rows)
  | selectedSolver requested solver =>
    [("component", .text "solver"), ("requested", .text requested.text), ("solver", .text solver)]
  | ignoredLimits solver => [("component", .text "solver"), ("solver", .text solver)]
  | unclassifiedResult solver error =>
    [("component", .text "solver"), ("solver", .text solver), ("error", .text error)]

end Event

end LinearProgram
