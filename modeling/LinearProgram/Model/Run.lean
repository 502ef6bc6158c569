import LinearProgram.Model.Basic

/-! Solving a model once, and reading the values found. -/

namespace LinearProgram

variable {α β : Type} [Backend α β]

def Call.solve : Call α β Status := do
  buildable
  modify fun m => { m with state := .solving }
  let m ← get
  report (.solving m.columns m.rows)
  let (raw, events) ← request .solve Backend.solve
  modify fun m => { m with state := .solved raw.shared, events := m.events ++ events }
  report (if raw.shared = .unknown then .stopped raw else .solved raw.shared)
  return raw.shared

namespace Model

def value (m : Model α β) (v : Variable) : Except (ModelError α) α := do
  m.usable
  if m.status.isNone then throw .notSolved
  let c ← m.registry.resolve v
  match Backend.values m.backend with
  | .error e => throw (.backend .solutionValues e)
  | .ok values =>
    match values[c.offset]? with
    | some x => return x
    | none => throw (.solutionUnavailable c)

def valueByName (m : Model α β) (name : String) : Except (ModelError α) α :=
  match m.find? name with
  | some v => m.value v
  | none => .error (.unknownName name)

end Model

end LinearProgram
