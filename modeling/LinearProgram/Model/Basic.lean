import LinearProgram.Model.Registry

/-! A model: the variables and counters that it keeps itself, and the backend that holds its
program. Every call first makes sure that the model can take it, and the first directive that the
backend refuses leaves the model unusable. -/

namespace LinearProgram

inductive SolveState where
  | unsolved
  | solving
  | solved (status : Status)
deriving DecidableEq

def SolveState.text : SolveState → String
  | unsolved => "Unsolved"
  | solving => "Solving"
  | solved status => "Solved(" ++ status.text ++ ")"

structure Model (α β : Type) where
  backend : β
  registry : Registry α
  rows : Nat := 0
  columns : Nat := 0
  objective : Option (LinearRow α) := none
  state : SolveState := .unsolved
  poisoned : Bool := false
  /-- What has been reported, oldest first. -/
  events : List Event := []

/-- A call on a model. -/
abbrev Call (α β γ : Type) := EStateM (ModelError α) (Model α β) γ

namespace Model

variable {α β γ : Type}

/-- A new model over a backend that has reported the given events so far. -/
def new (id : ModelId) (backend : β) (events : List Event) : Model α β where
  backend
  registry := { model := id }
  events := events ++ [.created]

def id (m : Model α β) : ModelId :=
  m.registry.model

def status (m : Model α β) : Option Status :=
  match m.state with
  | .solved s => some s
  | _ => none

def info (m : Model α β) (v : Variable) : Except (ModelError α) (VariableInfo α) :=
  m.registry.info v

def handles (m : Model α β) : List Variable :=
  m.registry.handles

def find? (m : Model α β) (name : String) : Option Variable :=
  m.registry.named? name

def buildable (m : Model α β) : Except (ModelError α) Unit :=
  if m.poisoned then .error .poisoned
  else if m.state = .unsolved then .ok ()
  else .error .alreadySolved

def usable (m : Model α β) : Except (ModelError α) Unit :=
  if m.poisoned then .error .poisoned else .ok ()

def report (e : Event) (m : Model α β) : Model α β :=
  { m with events := m.events ++ [e] }

def poison (operation : Operation) (source : BackendError) (m : Model α β) : Model α β :=
  { m with poisoned := true }.report (.rejected operation.name source.message)

end Model

namespace Call

variable {α β γ : Type}

/-- Reads the model and changes nothing. -/
def ask (f : Model α β → Except (ModelError α) γ) : Call α β γ := fun m =>
  match f m with
  | .ok a => .ok a m
  | .error e => .error e m

/-- Asks the backend. A refusal poisons the model. -/
def request (operation : Operation) (r : Request β γ) : Call α β γ := fun m =>
  match r m.backend with
  | .ok a b => .ok a { m with backend := b }
  | .error e b => .error (.backend operation e) ({ m with backend := b }.poison operation e)

def buildable : Call α β Unit :=
  ask Model.buildable

def resolve (v : Variable) : Call α β ColumnId :=
  ask fun m => m.registry.resolve v

def info (v : Variable) : Call α β (VariableInfo α) :=
  ask fun m => m.info v

def report (e : Event) : Call α β Unit :=
  modify (Model.report e)

variable [Backend α β]

def send (d : Directive α) : Call α β Unit :=
  request d.operation (Backend.send d)

def sendAll : List (Directive α) → Call α β Unit
  | [] => pure ()
  | d :: ds => do
    send d
    sendAll ds

def emitRow [Scalar α] (row : LinearRow α) (sense : Sense) (bound : α) : Call α β Unit := do
  send (.addRow row.terms sense bound)
  modify fun m => { m with rows := m.rows + 1 }
  let m ← get
  report (.emittedRow ⟨m.rows⟩ row.terms.length sense (Scalar.text bound))

end Call

end LinearProgram
