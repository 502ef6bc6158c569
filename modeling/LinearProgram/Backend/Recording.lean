import LinearProgram.Backend.Basic

/-! Backends that keep a log of what they are told and refuse on demand. They solve nothing: the
answer is set beforehand. -/

namespace LinearProgram

inductive LogEntry (α : Type) where
  | sent (d : Directive α)
  | setMaximize
  | solve
  | saveModel
  | loadModel

def LogEntry.operation {α : Type} : LogEntry α → Operation
  | sent d => d.operation
  | setMaximize => .setMaximize
  | solve => .solve
  | saveModel => .saveModel
  | loadModel => .loadModel

/-- How often an operation stands in a log. -/
def timesLogged {α : Type} (log : List (LogEntry α)) (o : Operation) : Nat :=
  log.countP fun e => e.operation = o

/-- What a directive does to columns that take everything. -/
def Directive.applyToColumns {α : Type} [Scalar α] (cols : List (Column α)) :
    Directive α → Except BackendError (List (Column α))
  | .addColumn => .ok (cols ++ [Column.continuous (ColumnId.ofOffset cols.length).text])
  | .setColumnName c name => change c fun col => { col with name }
  | .setInteger c true => change c fun col => { col with type := .integer }
  | .setInteger _ false => .ok cols
  | .setBinary c =>
    change c fun col => { col with type := .binary, lower := some 0, upper := some 1 }
  | .setBounds c lower upper => change c fun col => col.withBounds lower upper
  | .addRow .. | .setObjective _ => .ok cols
where
  change (c : ColumnId) (f : Column α → Column α) : Except BackendError (List (Column α)) :=
    if c.offset < cols.length then .ok (cols.modify c.offset f) else .error (.unknownColumn c)

/-- What a backend holds after loading. -/
structure LoadScript (α : Type) where
  columns : List (Column α) := []
  rows : Nat := 0
  objective : List (Term α) := []
  /-- A column that cannot be read. -/
  broken : Option ColumnId := none

structure Recording (α : Type) where
  log : List (LogEntry α) := []
  columns : List (Column α) := []
  rows : Nat := 0
  objective : List (Term α) := []
  /-- Which occurrences of which operations are refused. -/
  rejects : List (Operation × Nat) := []
  status : SolverStatus := .optimal
  values : Option (List α) := none
  solved : Bool := false
  /-- What a load brings in. Without it a load is refused and a save is not logged. -/
  loads : Option (LoadScript α) := none
  broken : Option ColumnId := none

namespace Recording

variable {α : Type}

def reject (o : Operation) (n : Nat) : BackendError :=
  .rejected (.stated (o.name ++ " #" ++ Nat.repr n))

/-- Logs first, then refuses if this occurrence is one to refuse. -/
def record (e : LogEntry α) : Request (Recording α) Unit := fun b =>
  let b := { b with log := b.log ++ [e] }
  let n := timesLogged b.log e.operation
  if b.rejects.contains (e.operation, n) then .error (reject e.operation n) b else .ok () b

/-- What an accepted directive changes. -/
def accept [Scalar α] (d : Directive α) (b : Recording α) : Except BackendError (Recording α) := do
  let columns ← d.applyToColumns b.columns
  let b := { b with columns }
  match d with
  | .addRow .. => return { b with rows := b.rows + 1 }
  | .setObjective terms => return { b with objective := terms }
  | _ => return b

def send [Scalar α] (d : Directive α) : Request (Recording α) Unit := do
  record (.sent d)
  Request.step fun b => (accept d b).map fun b => ((), b)

def solve : Request (Recording α) (SolverStatus × List Event) := do
  record .solve
  modifyGet fun b => ((b.status, []), { b with solved := true })

def column (b : Recording α) (c : ColumnId) : Except BackendError (Column α) :=
  if b.broken = some c then .error (.unknownColumn c)
  else match b.columns[c.offset]? with
    | some col => .ok col
    | none => .error (.unknownColumn c)

/-- Saving writes nothing. Where it is to be refused, it always is. -/
def save (files : Files) : Request (Recording α) (Files × List Event) := fun b =>
  match b.loads with
  | none => .ok (files, []) b
  | some _ =>
    let b := { b with log := b.log ++ [.saveModel] }
    if b.rejects.any fun r => r.1 = .saveModel then
      .error (.rejected (.stated Operation.saveModel.name)) b
    else .ok (files, []) b

def load : Request (Recording α) (List Event) := fun b =>
  match b.loads with
  | none => .error (.rejected (.stated "recording backend cannot load")) b
  | some s =>
    match record .loadModel b with
    | .error e b => .error e b
    | .ok _ b =>
      .ok [] { b with
        columns := s.columns
        rows := s.rows
        objective := s.objective
        broken := s.broken }

instance [Scalar α] : Backend α (Recording α) where
  send := send
  setMaximize b := { b with log := b.log ++ [.setMaximize] }
  solve := solve
  values b := match b.values, b.solved with
    | some values, true => .ok values
    | _, _ => .error (.rejected (.stated "no solution"))
  columnCount b := b.columns.length
  rowCount b := b.rows
  column := column
  objectiveTerms b := b.objective
  save _ files := save files
  load _ _ := load

end Recording

end LinearProgram
