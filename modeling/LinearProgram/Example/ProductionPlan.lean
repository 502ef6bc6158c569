import LinearProgram.Json.Numerals
import LinearProgram.Model.Expression
import LinearProgram.Model.Relation
import LinearProgram.Model.Run
import LinearProgram.Solver.Choose

/-! A workshop builds chairs and tables: two and three hours of labour each, with a profit of thirty
and fifty. There are a hundred hours of labour and room for forty pieces. -/

namespace LinearProgram.ProductionPlan

abbrev Plan := Call Float (ServiceBackend Float)

structure Variables where
  chairs : Variable
  tables : Variable
  hours : Variable
  profit : Variable

/-- `a * k + b * l` -/
def weighted (a : Variable) (k : Float) (b : Variable) (l : Float) : Plan Variable := do
  let x ← Call.scale a k Domain.nonNegativeReal
  let y ← Call.scale b l Domain.nonNegativeReal
  Call.sum x y Domain.nonNegativeReal

def build : Plan Variables := do
  let chairs ← Call.create "chairs" Domain.nonNegativeInteger
  let tables ← Call.create "tables" Domain.nonNegativeInteger
  let hours ← weighted chairs 2 tables 3
  let available ← Call.namedConstant "available_hours" 100 Domain.nonNegativeReal.asConstant
  Call.relate hours available .lessEqual
  let pieces ← Call.sum chairs tables Domain.nonNegativeInteger
  let storage ← Call.namedConstant "storage" 40 Domain.nonNegativeInteger.asConstant
  Call.relate pieces storage .lessEqual
  let profit ← weighted chairs 30 tables 50
  Call.maximize profit
  return { chairs, tables, hours, profit }

/-- The report on a plan, which leaves the time it took to whoever measures it. -/
def report (time : String) : Plan (List String) := do
  let vs ← build
  let m ← get
  let head :=
    ["=== Production Planning Problem ===", "",
      "Compiled into " ++ Nat.repr m.columns ++ " columns and " ++ Nat.repr m.rows ++ " rows", ""]
  match ← Call.solve with
  | .optimal =>
    let value (v : Variable) (places : Nat) : Plan String :=
      Call.ask fun m => (m.value v).map (Decimal.fixed places)
    let chairs ← value vs.chairs 0
    let tables ← value vs.tables 0
    let hours ← value vs.hours 1
    let profit ← value vs.profit 2
    return head ++
      ["✓ Optimal plan found", "  Chairs: " ++ chairs, "  Tables: " ++ tables,
        "  Labour: " ++ hours ++ " hours", "  Profit: $" ++ profit,
        "  Solve time: " ++ time ++ " ms"]
  | status => return head ++ ["✗ No optimal plan: " ++ status.text]

def config : Config Float :=
  { solver := .microlp, timeLimit := some 10 }

end LinearProgram.ProductionPlan
