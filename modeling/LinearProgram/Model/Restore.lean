import LinearProgram.Json.Native
import LinearProgram.Model.Basic

/-! Saving models, loading them, and checking what they hold against a snapshot. -/

namespace LinearProgram

structure Snapshot where
  rows : Nat
  columns : Nat
deriving DecidableEq

namespace Snapshot

def toJson (s : Snapshot) : Json :=
  Json.record [("rows", Json.nat s.rows), ("columns", Json.nat s.columns)]

def ofJson? (j : Json) : Option Snapshot := do
  match ← j.fields? ["rows", "columns"] with
  | [rows, columns] =>
    return ⟨← Json.required? Json.toNat? rows, ← Json.required? Json.toNat? columns⟩
  | _ => none

end Snapshot

/-- A variable as far as its column tells. -/
def VariableInfo.ofColumn {α : Type} [Scalar α] (c : Column α) : VariableInfo α where
  name := c.name
  domain := Domain.infer c

variable {α β : Type} [Scalar α] [Backend α β]

namespace Model

def snapshot (m : Model α β) : Snapshot :=
  ⟨m.rows, m.columns⟩

def verify (m : Model α β) (s : Snapshot) : Except (ModelError α) Unit :=
  let held : Snapshot := ⟨Backend.rowCount m.backend, Backend.columnCount m.backend⟩
  if s = held then .ok ()
  else .error (.snapshotMismatch s.rows s.columns held.rows held.columns)

/-- The variables for all columns that the backend holds. -/
def heldVariables (b : β) : Except BackendError (List (VariableInfo α)) :=
  (List.range (Backend.columnCount b)).mapM fun i =>
    (Backend.column b (ColumnId.ofOffset i)).map VariableInfo.ofColumn

/-- Takes over what the backend holds, with the variables for its columns. -/
def adopt (entries : List (VariableInfo α)) (m : Model α β) : Model α β :=
  let terms := Backend.objectiveTerms m.backend
  { m with
    registry := m.registry.reset entries
    columns := Backend.columnCount m.backend
    rows := Backend.rowCount m.backend
    objective := if terms.isEmpty then none else some (LinearRow.ofTerms terms)
    state := .unsolved }

end Model

namespace Call

/-- A failure to save leaves the model as usable as it was. -/
def save (path : String) (files : Files) : Call α β Files := do
  ask Model.usable
  let m ← get
  match Backend.save path files m.backend with
  | .ok (files, events) b =>
    set { m with backend := b, events := m.events ++ events }
    return files
  | .error e b =>
    set { m with backend := b }
    throw (.backend .saveModel e)

/-- Forgets all variables, and makes new ones for the columns of the program loaded. -/
def load (path : String) (files : Files) : Call α β Snapshot := do
  ask Model.usable
  let events ← request .loadModel (Backend.load path files)
  modify fun m => { m with events := m.events ++ events }
  let m ← get
  match Model.heldVariables m.backend with
  | .error e =>
    modify (Model.poison .loadModel e)
    throw (.backend .loadModel e)
  | .ok entries =>
    modify (Model.adopt entries)
    let m ← get
    report (.loadedModel path m.columns m.rows)
    return m.snapshot

end Call

end LinearProgram
