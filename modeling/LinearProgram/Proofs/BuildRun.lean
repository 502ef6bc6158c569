import LinearProgram.Proofs.BuildingCalls

/-! Runs of the calls that build a model, one successful call after another. -/

namespace LinearProgram

variable {α : Type}

inductive Origin (α : Type) where
  | create (name : String)
  | createAnonymous
  | fromConstant (value : α)
  | namedConstant (name : String) (value : α)
  | sum (a b : Variable)
  | negate (a : Variable)
  | scale (a : Variable) (k : α)
  | divide (a : Variable) (k : α)
  | multiply (a b : Variable)
  | divideBy (a b : Variable)

namespace Origin

def call {β : Type} [Scalar α] [Backend α β] (d : Domain) : Origin α → Call α β Variable
  | create name => Call.create name d
  | createAnonymous => Call.createAnonymous d
  | fromConstant value => Call.fromConstant value d
  | namedConstant name value => Call.namedConstant name value d
  | sum a b => Call.sum a b d
  | negate a => Call.negate a d
  | scale a k => Call.scale a k d
  | divide a k => Call.divide a k d
  | multiply a b => Call.multiply a b d
  | divideBy a b => Call.divideBy a b d

def operands : Origin α → List Variable
  | sum a b | multiply a b | divideBy a b => [a, b]
  | negate a | scale a _ | divide a _ => [a]
  | _ => []

/-- Whether the value of the variable is for the caller to choose. -/
def isFree : Origin α → Bool
  | create _ | createAnonymous => true
  | _ => false

end Origin

/-- A call that was made, and the handle it gave back. -/
inductive Entry (α : Type) where
  | made (o : Origin α) (d : Domain) (x : Variable)
  | related (a b : Variable) (sense : Sense)
  | maximized (vs : List Variable)

def Entry.Runs {β : Type} [Scalar α] [Backend α β] :
    Entry α → Model α β → Model α β → Prop
  | made o d x, m, m' => o.call d m = .ok x m'
  | related a b sense, m, m' => Call.relate a b sense m = .ok () m'
  | maximized vs, m, m' => Call.maximizeSum vs m = .ok () m'

/-- A call that was made, with the rows that it brought. -/
structure Step (α : Type) where
  entry : Entry α
  rows : List (Constraint α)

/-- The rows of the calls that made the variables. -/
def definingRows (ss : List (Step α)) : List (Constraint α) :=
  ss.flatMap fun s => match s.entry with
    | .made .. => s.rows
    | _ => []

theorem definingRows_concat (ss : List (Step α)) (s : Step α) :
    definingRows (ss ++ [s]) = definingRows ss ++ definingRows [s] :=
  List.flatMap_append

def Model.fresh (id : ModelId) (service : SolverService α) (config : Config α)
    (events : List Event) : Model α (ServiceBackend α) :=
  Model.new id { service, problem := { config } } events

theorem Model.InStep.fresh (id : ModelId) (service : SolverService α) (config : Config α)
    (events : List Event) : (Model.fresh id service config events).InStep :=
  ⟨rfl, rfl, rfl⟩

/-- A model is built from another by the calls made since. -/
inductive Build [Scalar α] [Codec α] (start : Model α (ServiceBackend α)) :
    List (Step α) → Model α (ServiceBackend α) → Prop
  | new : Build start [] start
  | call {ss : List (Step α)} {m m' : Model α (ServiceBackend α)} {e : Entry α}
      (built : Build start ss m) (runs : e.Runs m m') :
      Build start
        (ss ++ [⟨e, m'.backend.problem.constraints.drop m.backend.problem.constraints.length⟩]) m'

/-- One more variable, its column and the rows that come with it. -/
structure Model.Adds [Scalar α] (m m' : Model α (ServiceBackend α)) (info : VariableInfo α)
    (rows : List (Constraint α)) : Prop where
  inStep : m'.InStep
  entries : m'.registry.entries = m.registry.entries ++ [info]
  columns : m'.backend.problem.columns =
    m.backend.problem.columns ++ [info.domain.column info.name]
  constraints : m'.backend.problem.constraints = m.backend.problem.constraints ++ rows

namespace Model

variable [Scalar α] {m m' : Model α (ServiceBackend α)} {info : VariableInfo α}
  {rows : List (Constraint α)}

theorem InStep.adds_grow (h : m.InStep) (info : VariableInfo α) : m.Adds (m.grow info) info [] where
  inStep := h.grow info
  entries := rfl
  columns := rfl
  constraints := (List.append_nil _).symm

/-- The constraint that a row becomes, under the next name. -/
def constraintOf (m : Model α (ServiceBackend α)) (row : LinearRow α) (sense : Sense) (bound : α) :
    Constraint α :=
  { sense, terms := row.offsetTerms, bound,
    name := (RowId.mk (m.backend.problem.constraints.length + 1)).text }

theorem Adds.pushRow (h : m.Adds m' info rows) (row : LinearRow α) (sense : Sense) (bound : α) :
    m.Adds (m'.pushRow row sense bound) info (rows ++ [m'.constraintOf row sense bound]) where
  inStep := h.inStep.pushRow row sense bound
  entries := h.entries
  columns := h.columns
  constraints := by
    rw [← List.append_assoc, ← h.constraints]
    rfl

theorem Adds.drop_eq (h : m.Adds m' info rows) :
    m'.backend.problem.constraints.drop m.backend.problem.constraints.length = rows := by
  rw [h.constraints, List.drop_left]

end Model

end LinearProgram
