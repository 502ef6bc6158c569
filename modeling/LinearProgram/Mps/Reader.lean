import LinearProgram.Binary64.Arithmetic
import LinearProgram.Decimal.Numeral
import LinearProgram.Mps.Fault
import LinearProgram.Problem.Basic
import LinearProgram.Text.Blank

/-! Reading free MPS, line by line. A line that starts with a letter opens a section, an indented
line is data of the open section, and what a line means depends only on the state that the lines
before it leave. -/

namespace LinearProgram.Mps

inductive Place where
  | start
  | name
  | direction
  | rows
  | columns
  | rightHandSides
  | ranges
  | bounds
deriving DecidableEq

structure State where
  problem : Problem Float := {}
  /-- The first row of type N. -/
  objectiveRow : Option String := none
  /-- The other rows of type N. -/
  freeRows : List String := []
  integerBlock : Bool := false
  place : Place := .start

inductive Progress where
  | more (s : State)
  | done (p : Problem Float)

def capital (word : String) : String :=
  String.ofList (Text.upper word.toList)

def unquoted (word : String) : String :=
  String.ofList (Text.trimBy (· = '\'') word.toList)

/-- Magnitudes from here on stand for infinity. -/
def infinityThreshold : Float :=
  Binary64.ofDecimal false 1 30

def number (word : String) : Except Fault Float :=
  match Decimal.readFloat? word with
  | none => .error (.notANumber word)
  | some x =>
    if infinityThreshold ≤ x then .ok Binary64.infinity
    else if x ≤ -infinityThreshold then .ok (-Binary64.infinity)
    else .ok x

def finite? (x : Float) : Option Float :=
  if Binary64.isFinite x then some x else none

def directionOf (word : String) : Except Fault Direction :=
  let w := capital word
  if w = "MAX" ∨ w = "MAXIMIZE" then .ok .maximize
  else if w = "MIN" ∨ w = "MINIMIZE" then .ok .minimize
  else .error (.unknownDirection w)

/-- What a row name stands for. -/
inductive Target where
  | objective
  | constraint (i : Nat)
  | nothing

namespace State

def setProblem (s : State) (f : Problem Float → Problem Float) : State :=
  { s with problem := f s.problem }

def setDirection (s : State) (d : Direction) : State :=
  s.setProblem fun p => { p with objective := { p.objective with direction := d } }

def rowIndex? (s : State) (name : String) : Option Nat :=
  s.problem.constraints.findIdx? fun c => c.name = name

def columnIndex? (s : State) (name : String) : Option Nat :=
  s.problem.columns.findIdx? fun c => c.name = name

def target (s : State) (row : String) : Except Fault Target :=
  if s.objectiveRow = some row then .ok .objective
  else match s.rowIndex? row with
    | some i => .ok (.constraint i)
    | none => if s.freeRows.contains row then .ok .nothing else .error (.unknownRow row)

def addRow (s : State) (sense : Sense) (name : String) : Except Fault State :=
  if (s.rowIndex? name).isSome then .error (.duplicateRow name)
  else .ok (s.setProblem fun p =>
    { p with constraints := p.constraints ++ [{ sense, terms := [], bound := 0, name }] })

def addFreeRow (s : State) (name : String) : State :=
  if s.objectiveRow.isNone then { s with objectiveRow := some name }
  else { s with freeRows := name :: s.freeRows }

def readRow (s : State) : List String → Except Fault State
  | [kind, name] =>
    match capital kind with
    | "N" => .ok (s.addFreeRow name)
    | "L" => s.addRow .lessEqual name
    | "E" => s.addRow .equal name
    | "G" => s.addRow .greaterEqual name
    | other => .error (.unknownRowType other)
  | _ => .error .rowShape

/-- The index of a column, and the state in which it exists. -/
def declareColumn (s : State) (name : String) : Nat × State :=
  match s.columnIndex? name with
  | some i => (i, s)
  | none =>
    let column := if s.integerBlock then Column.integer name else Column.continuous name
    (s.problem.columns.length, s.setProblem fun p => { p with columns := p.columns ++ [column] })

def addObjectiveTerm (s : State) (t : Nat × Float) : State :=
  s.setProblem fun p =>
    { p with objective := { p.objective with terms := p.objective.terms ++ [t] } }

def modifyConstraint (s : State) (i : Nat) (f : Constraint Float → Constraint Float) : State :=
  s.setProblem fun p => { p with constraints := p.constraints.modify i f }

def modifyColumn (s : State) (i : Nat) (f : Column Float → Column Float) : State :=
  s.setProblem fun p => { p with columns := p.columns.modify i f }

/-- A zero is no term: it only declares its column. -/
def addEntry (s : State) (column : Nat) (row : String) (value : Float) : Except Fault State := do
  let target ← s.target row
  if value == 0 then return s
  match target with
  | .objective => return s.addObjectiveTerm (column, value)
  | .constraint i =>
    return s.modifyConstraint i fun c => { c with terms := c.terms ++ [(column, value)] }
  | .nothing => return s

def addEntries (s : State) (column : Nat) : List String → Except Fault State
  | row :: word :: rest => do
    let value ← number word
    (← s.addEntry column row value).addEntries column rest
  | _ => .ok s

def readMarker (s : State) (word : String) : Except Fault State :=
  match capital (unquoted word) with
  | "INTORG" => .ok { s with integerBlock := true }
  | "INTEND" => .ok { s with integerBlock := false }
  | other => .error (.unknownMarker other)

def isMarker (word : String) : Bool :=
  capital (unquoted word) = "MARKER"

def readColumn (s : State) : List String → Except Fault State
  | name :: second :: third :: rest =>
    if isMarker second then s.readMarker third
    else if rest.length % 2 = 1 then .error .columnShape
    else
      let (i, s) := s.declareColumn name
      s.addEntries i (second :: third :: rest)
  | _ => .error .columnShape

def setBound (s : State) (row : String) (value : Float) : Except Fault State := do
  match ← s.target row with
  | .constraint i => return s.modifyConstraint i fun c => { c with bound := value }
  | _ => return s

def setBounds (s : State) : List String → Except Fault State
  | row :: word :: rest => do
    let value ← number word
    (← s.setBound row value).setBounds rest
  | _ => .ok s

/-- The name of the set comes first, or not at all. -/
def readRightHandSides (s : State) (words : List String) : Except Fault State :=
  let pairs := if words.length % 2 = 1 then words.tail else words
  if pairs.isEmpty then .error .boundSetShape else s.setBounds pairs

end State

/-- The kinds of bound that stand without a value. -/
def valueless (kind : String) : Bool :=
  kind = "FR" || kind = "MI" || kind = "PL" || kind = "BV"

/-- The column that a bound line names and its value, zero where the kind takes none. -/
def boundOperands (kind : String) : List String → Except Fault (String × Float)
  | [_, name] => if valueless kind then .ok (name, 0) else .error .boundShape
  | [_, second, third] =>
    if valueless kind then .ok (third, 0)
    else (number third).map fun x => (second, x)
  | [_, _, name, word] =>
    if valueless kind then .ok (name, 0)
    else (number word).map fun x => (name, x)
  | _ => .error .boundShape

def integral (c : Column Float) : Column Float :=
  if c.type = .continuous then { c with type := .integer } else c

def applyBound (kind : String) (value : Float) (c : Column Float) :
    Except Fault (Column Float) :=
  match kind with
  | "UP" => .ok { c with upper := finite? value }
  | "LO" => .ok { c with lower := finite? value }
  | "FX" => .ok { c with lower := some value, upper := some value }
  | "FR" => .ok { c with lower := none, upper := none }
  | "MI" => .ok { c with lower := none }
  | "PL" => .ok { c with upper := none }
  | "BV" => .ok { c with type := .binary, lower := some 0, upper := some 1 }
  | "LI" => .ok { integral c with lower := finite? value }
  | "UI" => .ok { integral c with upper := finite? value }
  | other => .error (.unknownBoundType other)

namespace State

def readBound (s : State) (words : List String) : Except Fault State := do
  let kind := capital (words.headD "")
  let (name, value) ← boundOperands kind words
  match s.columnIndex? name with
  | none => .error (.unknownColumn name)
  | some i =>
    match s.problem.columns[i]? with
    | none => .error (.unknownColumn name)
    | some c =>
      let c ← applyBound kind value c
      return s.modifyColumn i fun _ => c

def openSection (s : State) (word : String) (rest : List String) : Except Fault Progress :=
  match capital word with
  | "NAME" =>
    let s := s.setProblem fun p => { p with name := " ".intercalate rest }
    .ok (.more { s with place := .name })
  | "OBJSENSE" => do
    let s ← match rest.head? with
      | some w => s.setDirection <$> directionOf w
      | none => pure s
    return .more { s with place := .direction }
  | "ROWS" => .ok (.more { s with place := .rows })
  | "COLUMNS" => .ok (.more { s with place := .columns })
  | "RHS" => .ok (.more { s with place := .rightHandSides })
  | "RANGES" => .ok (.more { s with place := .ranges })
  | "BOUNDS" => .ok (.more { s with place := .bounds })
  | "ENDATA" => .ok (.done s.problem)
  | other => .error (.unknownSection other)

def readData (s : State) (words : List String) : Except Fault State :=
  match s.place with
  | .direction => s.setDirection <$> directionOf (words.headD "")
  | .rows => s.readRow words
  | .columns => s.readColumn words
  | .rightHandSides => s.readRightHandSides words
  | .bounds => s.readBound words
  | .ranges => .error .rangesUnsupported
  | .start | .name => .error .outsideSection

/-- Blank lines and lines that start with an asterisk say nothing. -/
def readLine (s : State) (line : List Char) : Except Fault Progress :=
  match (Text.words line).map String.ofList with
  | [] => .ok (.more s)
  | word :: rest =>
    if word.toList.head? = some '*' then .ok (.more s)
    else if (line.head?.map Text.isBlank).getD false then .more <$> s.readData (word :: rest)
    else s.openSection word rest

/-- A fault comes with the number of its line, and a missing end with the number of the last. -/
def readLines (s : State) (read : Nat) : List (List Char) → Except (Nat × Fault) (Problem Float)
  | [] => .error (read, .missingEnd)
  | line :: rest =>
    match s.readLine line with
    | .error fault => .error (read + 1, fault)
    | .ok (.done p) => .ok p
    | .ok (.more s) => s.readLines (read + 1) rest

end State

def read (text : String) : Except (Nat × Fault) (Problem Float) :=
  State.readLines {} 0 (Text.lines text.toList)

end LinearProgram.Mps
