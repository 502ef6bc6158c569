import LinearProgram.Json.Decode
import LinearProgram.Json.Reader
import LinearProgram.Json.Writer
import LinearProgram.Problem.Basic
import LinearProgram.Status

/-! The JSON form of programs and their parts: for each what is written and what is read. -/

namespace LinearProgram

open Json

namespace VariableType

def words : List (String × VariableType) :=
  [("Continuous", .continuous), ("Integer", .integer), ("Binary", .binary)]

def toJson (t : VariableType) : Json := text t.name

def ofJson? : Json → Option VariableType := toNamed? words

end VariableType

namespace Sense

def word : Sense → String
  | .lessEqual => "LessThanOrEqual"
  | .equal => "Equal"
  | .greaterEqual => "GreaterThanOrEqual"

def words : List (String × Sense) :=
  [("LessThanOrEqual", .lessEqual), ("Equal", .equal), ("GreaterThanOrEqual", .greaterEqual)]

def toJson (s : Sense) : Json := Json.text s.word

def ofJson? : Json → Option Sense := toNamed? words

end Sense

namespace Direction

def words : List (String × Direction) :=
  [("Minimize", .minimize), ("Maximize", .maximize)]

def toJson (d : Direction) : Json := Json.text d.name

def ofJson? : Json → Option Direction := toNamed? words

end Direction

namespace SolverChoice

def word : SolverChoice → String
  | .auto => "Auto"
  | .coinCbc => "CoinCbc"
  | .highs => "Highs"
  | .microlp => "MicroLp"

def words : List (String × SolverChoice) :=
  [("Auto", .auto), ("CoinCbc", .coinCbc), ("Highs", .highs), ("MicroLp", .microlp)]

def toJson (c : SolverChoice) : Json := Json.text c.word

def ofJson? : Json → Option SolverChoice := toNamed? words

end SolverChoice

namespace Status

def words : List (String × Status) :=
  [("Optimal", .optimal), ("Infeasible", .infeasible), ("Unbounded", .unbounded),
    ("Unknown", .unknown)]

def toJson (s : Status) : Json := Json.text s.text

def ofJson? : Json → Option Status := toNamed? words

end Status

namespace SolverStatus

def words : List (String × SolverStatus) :=
  [("Optimal", .optimal), ("Feasible", .feasible), ("Infeasible", .infeasible),
    ("Unbounded", .unbounded), ("TimeLimit", .timeLimit), ("IterationLimit", .iterationLimit),
    ("NodeLimit", .nodeLimit), ("Error", .error), ("Interrupted", .interrupted)]

def toJson : SolverStatus → Json
  | .optimal => Json.text "Optimal"
  | .feasible => Json.text "Feasible"
  | .infeasible => Json.text "Infeasible"
  | .unbounded => Json.text "Unbounded"
  | .timeLimit => Json.text "TimeLimit"
  | .iterationLimit => Json.text "IterationLimit"
  | .nodeLimit => Json.text "NodeLimit"
  | .error => Json.text "Error"
  | .interrupted => Json.text "Interrupted"
  | .code n => record [("Code", int n)]

def ofJson? : Json → Option SolverStatus
  | .object [(some "Code", j)] => (toInt32? j).map .code
  | j => toNamed? words j

end SolverStatus

def pairToJson (t : Nat × Float) : Json :=
  .array [nat t.1, float t.2]

def termsToJson (ts : Terms Float) : Json :=
  .array (ts.map pairToJson)

def terms? [NumberReader] : Json → Option (Terms Float) :=
  toList? (toPair? toNat? toFloat?)

namespace Column

def toJson (c : Column Float) : Json :=
  record
    [("variable_type", c.type.toJson), ("lower_bound", option float c.lower),
      ("upper_bound", option float c.upper), ("name", text c.name)]

def ofJson? [NumberReader] (j : Json) : Option (Column Float) := do
  match ← j.fields? ["variable_type", "lower_bound", "upper_bound", "name"] with
  | [type, lower, upper, name] =>
    return {
      type := ← required? VariableType.ofJson? type
      lower := ← optional? toFloat? lower
      upper := ← optional? toFloat? upper
      name := ← required? toText? name }
  | _ => none

end Column

namespace Constraint

def toJson (c : Constraint Float) : Json :=
  record
    [("constraint_type", c.sense.toJson), ("terms", termsToJson c.terms), ("bound", float c.bound),
      ("name", text c.name)]

def ofJson? [NumberReader] (j : Json) : Option (Constraint Float) := do
  match ← j.fields? ["constraint_type", "terms", "bound", "name"] with
  | [sense, terms, bound, name] =>
    return {
      sense := ← required? Sense.ofJson? sense
      terms := ← required? terms? terms
      bound := ← required? toFloat? bound
      name := ← required? toText? name }
  | _ => none

end Constraint

namespace Objective

def toJson (o : Objective Float) : Json :=
  record [("optimization_type", o.direction.toJson), ("terms", termsToJson o.terms)]

def ofJson? [NumberReader] (j : Json) : Option (Objective Float) := do
  match ← j.fields? ["optimization_type", "terms"] with
  | [direction, terms] =>
    return {
      direction := ← required? Direction.ofJson? direction
      terms := ← required? terms? terms }
  | _ => none

end Objective

namespace Config

def toJson (c : Config Float) : Json :=
  record
    [("backend", c.solver.toJson), ("time_limit", option float c.timeLimit),
      ("gap_tolerance", option float c.gapTolerance), ("verbose", .bool c.verbose)]

def ofJson? [NumberReader] (j : Json) : Option (Config Float) := do
  match ← j.fields? ["backend", "time_limit", "gap_tolerance", "verbose"] with
  | [solver, timeLimit, gapTolerance, verbose] =>
    return {
      solver := ← required? SolverChoice.ofJson? solver
      timeLimit := ← optional? toFloat? timeLimit
      gapTolerance := ← optional? toFloat? gapTolerance
      verbose := ← required? toBool? verbose }
  | _ => none

end Config

namespace Problem

def toJson (p : Problem Float) : Json :=
  record
    [("name", text p.name), ("objective", p.objective.toJson),
      ("constraints", .array (p.constraints.map Constraint.toJson)),
      ("variables", .array (p.columns.map Column.toJson)), ("solver_config", p.config.toJson)]

def ofJson? [NumberReader] (j : Json) : Option (Problem Float) := do
  match ← j.fields? ["name", "objective", "constraints", "variables", "solver_config"] with
  | [name, objective, constraints, columns, config] =>
    return {
      name := ← required? toText? name
      objective := ← required? Objective.ofJson? objective
      constraints := ← required? (toList? Constraint.ofJson?) constraints
      columns := ← required? (toList? Column.ofJson?) columns
      config := ← required? Config.ofJson? config }
  | _ => none

end Problem

end LinearProgram
