import LinearProgram.Model.Basic

/-! Relations between variables, and the objective. -/

namespace LinearProgram.Call

variable {α β : Type} [Scalar α] [Backend α β]

/-- The difference of the two stands in the given relation to zero. -/
def relate (a b : Variable) (sense : Sense) : Call α β Unit := do
  buildable
  let ca ← resolve a
  let cb ← resolve b
  emitRow ((LinearRow.empty.add ca 1).add cb (-1)) sense 0
  report (.addedConstraint ca cb sense)

/-- The row of a sum, where a variable counts as often as it stands there. -/
def sumRow (row : LinearRow α) : List Variable → Call α β (LinearRow α)
  | [] => pure row
  | v :: vs => do
    let c ← resolve v
    sumRow (row.add c 1) vs

/-- Takes the place of any objective before it. -/
def maximizeSum (vs : List Variable) : Call α β Unit := do
  buildable
  let row ← sumRow LinearRow.empty vs
  modify fun m => { m with backend := Backend.setMaximize m.backend }
  send (.setObjective row.terms)
  report (.setObjective row.terms.length)
  modify fun m => { m with objective := some row }

def maximize (v : Variable) : Call α β Unit :=
  maximizeSum [v]

end LinearProgram.Call
