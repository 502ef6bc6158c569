import LinearProgram.Backend.Basic
import LinearProgram.File.Codec
import LinearProgram.Solver.Service

/-! The backend that buffers a program and hands it to a solver as a whole. What it refuses leaves
it as it was. -/

namespace LinearProgram

structure ServiceBackend (α : Type) where
  service : SolverService α
  problem : Problem α := {}
  solution : Option (Solution α) := none

namespace ServiceBackend

variable {α : Type}

def hasColumn (b : ServiceBackend α) (c : ColumnId) : Bool :=
  c.number != 0 && c.offset < b.problem.columns.length

theorem hasColumn_iff {b : ServiceBackend α} {c : ColumnId} :
    b.hasColumn c = true ↔ c.number ≠ 0 ∧ c.offset < b.problem.columns.length := by
  simp [hasColumn]

def modifyColumn (b : ServiceBackend α) (c : ColumnId) (f : Column α → Column α) :
    Except BackendError (ServiceBackend α) :=
  if b.hasColumn c then
    .ok { b with problem := { b.problem with columns := b.problem.columns.modify c.offset f } }
  else .error (.unknownColumn c)

/-- The terms by offset. The first column that is not there is named. -/
def offsets (b : ServiceBackend α) : List (Term α) → Except BackendError (Terms α)
  | [] => .ok []
  | (c, a) :: ts =>
    if b.hasColumn c then (b.offsets ts).map ((c.offset, a) :: ·) else .error (.unknownColumn c)

def addColumn [Scalar α] (b : ServiceBackend α) : ServiceBackend α :=
  let column := Column.continuous (ColumnId.ofOffset b.problem.columns.length).text
  { b with problem := { b.problem with columns := b.problem.columns ++ [column] } }

def addConstraint (b : ServiceBackend α) (sense : Sense) (terms : Terms α) (bound : α) :
    ServiceBackend α :=
  let name := (RowId.mk (b.problem.constraints.length + 1)).text
  let constraint := { sense, terms, bound, name }
  { b with problem := { b.problem with constraints := b.problem.constraints ++ [constraint] } }

def setObjectiveTerms (b : ServiceBackend α) (terms : Terms α) : ServiceBackend α :=
  { b with problem := { b.problem with objective := { b.problem.objective with terms } } }

def setMaximize (b : ServiceBackend α) : ServiceBackend α :=
  { b with problem :=
    { b.problem with objective := { b.problem.objective with direction := .maximize } } }

def apply [Scalar α] (b : ServiceBackend α) :
    Directive α → Except BackendError (ServiceBackend α)
  | .addColumn => .ok b.addColumn
  | .setColumnName c name =>
    if name = "" then .error (.rejected (.emptyName c))
    else b.modifyColumn c fun col => { col with name }
  | .setInteger c integer =>
    b.modifyColumn c fun col => { col with type := if integer then .integer else .continuous }
  | .setBinary c =>
    b.modifyColumn c fun col => { col with type := .binary, lower := some 0, upper := some 1 }
  | .setBounds c lower upper =>
    if boundsConsistent lower upper then b.modifyColumn c fun col => col.withBounds lower upper
    else .error (.rejected (.invalidBounds (lowerText lower) (upperText upper) c))
  | .addRow terms sense bound => (b.offsets terms).map fun ts => b.addConstraint sense ts bound
  | .setObjective terms => (b.offsets terms).map b.setObjectiveTerms

def solve (b : ServiceBackend α) :
    Except BackendError ((SolverStatus × List Event) × ServiceBackend α) :=
  if b.problem.isMixedInteger && !b.service.supportsInteger then
    .error (.rejected (.integerColumns b.service.name))
  else match b.service.solve b.problem with
    | .error e => .error (.solver e)
    | .ok (solution, events) =>
      .ok ((solution.status, events), { b with solution := some solution })

/-- The number of the column at a place. Past the last column, a place counts by its low 32 bits. -/
def columnId (b : ServiceBackend α) (i : Nat) : ColumnId :=
  .ofOffset (if i < b.problem.columns.length then i else i % UInt32.size)

def column (b : ServiceBackend α) (c : ColumnId) : Except BackendError (Column α) :=
  if c.number = 0 then .error (.unknownColumn c)
  else match b.problem.columns[c.offset]? with
    | some col => .ok col
    | none => .error (.unknownColumn c)

/-- The program in the file takes the place of the buffered one, but not of its configuration. -/
def load [Codec α] (b : ServiceBackend α) (path : String) (files : Files) :
    Except BackendError (List Event × ServiceBackend α) := do
  let (p, events) ← Problem.load path files
  return (events, { b with problem := { p with config := b.problem.config }, solution := none })

instance [Scalar α] [Codec α] : Backend α (ServiceBackend α) where
  send d := .step fun b => (b.apply d).map fun b => ((), b)
  setMaximize := setMaximize
  solve := .step solve
  values b := match b.solution with
    | some s => .ok s.values
    | none => .error (.rejected .noSolution)
  columnCount b := b.problem.columns.length
  rowCount b := b.problem.constraints.length
  column := column
  objectiveTerms b := b.problem.objective.terms.map fun (i, a) => (b.columnId i, a)
  save path files := .step fun b => (b.problem.save path files).map fun r => (r, b)
  load path files := .step fun b => b.load path files

end ServiceBackend

end LinearProgram
