import LinearProgram.Model.Basic

/-! Variables, constants and arithmetic. The result of an operation is a variable of its own, and
one equality row ties it to its operands. -/

namespace LinearProgram

/-- The directives that install a domain on a column. -/
def Domain.directives {α : Type} [Scalar α] (d : Domain) (c : ColumnId) : List (Directive α) :=
  (if d.isInteger then [.setInteger c true] else []) ++
    match d.range with
    | .unconstrained => [.setBounds c none none]
    | .nonNegative => [.setBounds c (some 0) none]
    | .binary => [.setBinary c]

namespace Call

variable {α β : Type} [Scalar α] [Backend α β]

def checkDomain (d : Domain) : Call α β Unit :=
  ask fun _ => d.check.map fun _ => ()

def checkName (name : String) : Call α β Unit :=
  ask fun m => if m.registry.isTaken name then .error (.duplicateName name) else .ok ()

def checkConstant (value : α) (d : Domain) : Call α β Unit := do
  checkDomain d
  if !d.admits value then throw (.constantOutsideDomain value d)

def checkFinite (k : α) : Call α β Unit :=
  if Scalar.isFinite k then pure () else throw (.nonFiniteConstant k)

def install (domain : Domain) (column : ColumnId) : Call α β Unit := do
  checkDomain domain
  sendAll (domain.directives column)

/-- A column for a variable: added, named and given its domain, in this order. -/
def allocate (info : VariableInfo α) : Call α β Variable := do
  let column ← ask fun m => .ok m.registry.nextColumn
  send .addColumn
  modify fun m => { m with columns := m.columns + 1 }
  send (.setColumnName column info.name)
  install info.domain column
  report (.createdVariable column info.name info.domain)
  modifyGet fun m => (m.registry.handle column, { m with registry := m.registry.insert info })

def freshName : Call α β String :=
  modifyGet fun m =>
    let n := m.registry.nextAnonymous
    (Registry.generatedName n, { m with registry := { m.registry with anonymous := n } })

def allocateAnonymous (domain : Domain) (constant : Option α) (expression : Option String) :
    Call α β Variable := do
  let name ← freshName
  allocate { name, domain, constant, expression }

def create (name : String) (domain : Domain) : Call α β Variable := do
  buildable
  checkDomain domain
  checkName name
  allocate { name, domain }

def createAnonymous (domain : Domain) : Call α β Variable := do
  buildable
  checkDomain domain
  allocateAnonymous domain none none

/-- Holds a variable to a value. -/
def pin (v : Variable) (value : α) : Call α β Unit := do
  let c ← resolve v
  emitRow (LinearRow.empty.add c 1) .equal value

def fromConstant (value : α) (domain : Domain) : Call α β Variable := do
  buildable
  checkConstant value domain
  let v ← allocateAnonymous domain (some value) (some (Scalar.text value))
  pin v value
  return v

def namedConstant (name : String) (value : α) (domain : Domain) : Call α β Variable := do
  buildable
  checkConstant value domain
  checkName name
  let v ← allocate
    { name, domain, constant := some value, expression := some (Scalar.text value) }
  pin v value
  return v

/-- The result of an operation whose row is the operands less the result. -/
def define (domain : Domain) (constant : Option α) (label : String) (operands : LinearRow α) :
    Call α β Variable := do
  checkDomain domain
  let v ← allocateAnonymous domain constant (some label)
  let c ← resolve v
  emitRow (operands.add c (-1)) .equal 0
  return v

def sum (a b : Variable) (domain : Domain) : Call α β Variable := do
  buildable
  let ca ← resolve a
  let cb ← resolve b
  let x ← info a
  let y ← info b
  let constant : Option α := do return (← x.constant) + (← y.constant)
  define domain constant (x.name ++ " + " ++ y.name) ((LinearRow.empty.add ca 1).add cb 1)

def negate (a : Variable) (domain : Domain) : Call α β Variable := do
  buildable
  let ca ← resolve a
  let x ← info a
  define domain (x.constant.map (-·)) ("-" ++ x.name) (LinearRow.empty.add ca (-1))

def scale (a : Variable) (k : α) (domain : Domain) : Call α β Variable := do
  buildable
  checkFinite k
  let ca ← resolve a
  let x ← info a
  define domain (x.constant.map (k * ·)) (Scalar.text k ++ " * " ++ x.name)
    (LinearRow.empty.add ca k)

def divide (a : Variable) (k : α) (domain : Domain) : Call α β Variable := do
  buildable
  checkFinite k
  if k == 0 then throw .divisionByZero
  let ca ← resolve a
  let x ← info a
  define domain (x.constant.map (· / k)) (x.name ++ " / " ++ Scalar.text k)
    (LinearRow.empty.add ca (1 / k))

/-- One factor has to be known. Where both are, the second one counts as the factor. -/
def multiply (a b : Variable) (domain : Domain) : Call α β Variable := do
  buildable
  let x ← info a
  let y ← info b
  match x.constant, y.constant with
  | _, some k => scale a k domain
  | some k, none => scale b k domain
  | none, none => throw (.nonConstantOperand y.name)

def divideBy (a b : Variable) (domain : Domain) : Call α β Variable := do
  buildable
  discard (resolve a)
  let y ← info b
  match y.constant with
  | some k => divide a k domain
  | none => throw (.nonConstantOperand y.name)

end Call

end LinearProgram
