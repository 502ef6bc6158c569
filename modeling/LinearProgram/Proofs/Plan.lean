import LinearProgram.Proofs.Session

/-! What a building call checks, and what it then does. The checks read the variables of the model
and leave no trace; what follows them is laid down in the plan that they end in. -/

namespace LinearProgram

variable {α β γ δ : Type}

/-- A variable to be made. -/
structure Draft (α : Type) where
  info : VariableInfo α
  /-- The number in the last generated name from then on. -/
  anonymous : Nat
  /-- The row that holds the variable to its value, and the right-hand side of that row. -/
  row : Option (LinearRow α × α) := none

/-- What a call does once nothing speaks against it. -/
inductive Plan (α : Type) where
  | column (p : Draft α)
  | relation (a b : ColumnId) (sense : Sense)
  | objective (row : LinearRow α)

section Planning

variable [Scalar α]

namespace Registry

def checkFree (r : Registry α) (name : String) : Except (ModelError α) Unit :=
  if r.isTaken name then .error (.duplicateName name) else .ok ()

def draftGenerated (r : Registry α) (domain : Domain) (constant : Option α)
    (expression : Option String) (row : Option (LinearRow α × α)) : Draft α where
  info := { name := generatedName r.nextAnonymous, domain, constant, expression }
  anonymous := r.nextAnonymous
  row

def draftDefined (r : Registry α) (d : Domain) (constant : Option α) (label : String)
    (operands : LinearRow α) : Except (ModelError α) (Draft α) := do
  discard d.check
  return r.draftGenerated d constant (some label) (some (operands.add r.nextColumn (-1), 0))

/-- The row that holds the next column to a value. -/
def pinRow (r : Registry α) (value : α) : LinearRow α × α :=
  (LinearRow.empty.add r.nextColumn 1, value)

def sumRow (r : Registry α) (row : LinearRow α) :
    List Variable → Except (ModelError α) (LinearRow α)
  | [] => .ok row
  | v :: vs => do
    let c ← r.resolve v
    r.sumRow (row.add c 1) vs

end Registry

def checkFinite (k : α) : Except (ModelError α) Unit :=
  if Scalar.isFinite k then .ok () else .error (.nonFiniteConstant k)

def checkDivisor (k : α) : Except (ModelError α) Unit :=
  if k == 0 then .error .divisionByZero else .ok ()

def Domain.checkConstant (d : Domain) (value : α) : Except (ModelError α) Unit := do
  discard d.check
  if d.admits value then .ok () else .error (.constantOutsideDomain value d)

namespace Registry

def draftScaled (r : Registry α) (d : Domain) (a : Variable) (k : α) :
    Except (ModelError α) (Draft α) := do
  checkFinite k
  let c ← r.resolve a
  let x ← r.info a
  r.draftDefined d (x.constant.map (k * ·)) (Scalar.text k ++ " * " ++ x.name)
    (LinearRow.empty.add c k)

def draftDivided (r : Registry α) (d : Domain) (a : Variable) (k : α) :
    Except (ModelError α) (Draft α) := do
  checkFinite k
  checkDivisor k
  let c ← r.resolve a
  let x ← r.info a
  r.draftDefined d (x.constant.map (· / k)) (x.name ++ " / " ++ Scalar.text k)
    (LinearRow.empty.add c (1 / k))

end Registry

def Origin.draft (r : Registry α) (d : Domain) : Origin α → Except (ModelError α) (Draft α)
  | create name => do
    discard d.check
    r.checkFree name
    return { info := { name, domain := d }, anonymous := r.anonymous }
  | createAnonymous => do
    discard d.check
    return r.draftGenerated d none none none
  | fromConstant value => do
    d.checkConstant value
    return r.draftGenerated d (some value) (some (Scalar.text value)) (some (r.pinRow value))
  | namedConstant name value => do
    d.checkConstant value
    r.checkFree name
    return {
      info := { name, domain := d, constant := some value, expression := some (Scalar.text value) }
      anonymous := r.anonymous
      row := some (r.pinRow value) }
  | sum a b => do
    let ca ← r.resolve a
    let cb ← r.resolve b
    let x ← r.info a
    let y ← r.info b
    let constant : Option α := do return (← x.constant) + (← y.constant)
    r.draftDefined d constant (x.name ++ " + " ++ y.name) ((LinearRow.empty.add ca 1).add cb 1)
  | negate a => do
    let c ← r.resolve a
    let x ← r.info a
    r.draftDefined d (x.constant.map (-·)) ("-" ++ x.name) (LinearRow.empty.add c (-1))
  | scale a k => r.draftScaled d a k
  | divide a k => r.draftDivided d a k
  | multiply a b => do
    let x ← r.info a
    let y ← r.info b
    match x.constant, y.constant with
    | _, some k => r.draftScaled d a k
    | some k, none => r.draftScaled d b k
    | none, none => .error (.nonConstantOperand y.name)
  | divideBy a b => do
    discard (r.resolve a)
    let y ← r.info b
    match y.constant with
    | some k => r.draftDivided d a k
    | none => .error (.nonConstantOperand y.name)

def Instruction.plan (r : Registry α) : Instruction α → Except (ModelError α) (Plan α)
  | make o d => do
    let p ← o.draft r d
    return .column p
  | relate a b sense => do
    let ca ← r.resolve a
    let cb ← r.resolve b
    return .relation ca cb sense
  | maximize v => do
    let row ← r.sumRow LinearRow.empty [v]
    return .objective row
  | maximizeSum vs => do
    let row ← r.sumRow LinearRow.empty vs
    return .objective row

def Model.plan (m : Model α β) (i : Instruction α) : Except (ModelError α) (Plan α) := do
  m.buildable
  i.plan m.registry

end Planning

section Execution

variable [Scalar α] [Backend α β]

def Call.tie : Option (LinearRow α × α) → Call α β Unit
  | none => pure ()
  | some (row, bound) => Call.emitRow row .equal bound

def Draft.execute (p : Draft α) : Call α β Variable := do
  modify fun m => { m with registry := { m.registry with anonymous := p.anonymous } }
  let v ← Call.allocate p.info
  Call.tie p.row
  return v

def Plan.execute : Plan α → Call α β (Answer α)
  | column p => do
    let v ← p.execute
    return .made v
  | relation a b sense => do
    Call.emitRow ((LinearRow.empty.add a 1).add b (-1)) sense 0
    Call.report (.addedConstraint a b sense)
    return .done
  | objective row => do
    modify fun m => { m with backend := Backend.setMaximize m.backend }
    Call.send (.setObjective row.terms)
    Call.report (.setObjective row.terms.length)
    modify fun m => { m with objective := some row }
    return .done

end Execution

/-- Goes on where a check has passed, and fails where it has not. -/
def Call.proceed (x : Except (ModelError α) γ) (f : γ → Call α β δ) : Call α β δ := fun m =>
  match x with
  | .ok a => f a m
  | .error e => .error e m

end LinearProgram
