import LinearProgram.Binary64.Arithmetic
import LinearProgram.Problem.Basic
import LinearProgram.Text.Blank

/-! Writing free MPS. Rows go by their place, every column is written with at least one entry,
and every column has its bounds stated. -/

namespace LinearProgram.Mps

/-- Why a program has no MPS form. The objective counts as row zero. -/
inductive Obstacle where
  | columnName (name : String)
  | danglingTerm (row column : Nat)
deriving DecidableEq

def Obstacle.message : Obstacle → String
  | columnName name => "column name '" ++ name ++ "' cannot be written as MPS"
  | danglingTerm row column =>
    "row " ++ Nat.repr row ++ " references unknown column " ++ Nat.repr column

def isWritableName (name : String) : Bool :=
  name != "" && !name.toList.any Text.isBlank

def rowName (row : Nat) : String :=
  if row = 0 then "OBJ" else "R" ++ Nat.repr row

/-- The term lists of the objective and of the constraints, with the numbers of their rows. -/
def numberedRows (p : Problem Float) : List (Terms Float × Nat) :=
  (p.objective.terms :: p.constraints.map (·.terms)).zipIdx

def obstacle? (p : Problem Float) : Option Obstacle :=
  match p.columns.find? fun c => !isWritableName c.name with
  | some c => some (.columnName c.name)
  | none => (numberedRows p).findSome? fun (terms, row) =>
    (terms.find? fun t => p.columns.length ≤ t.1).map fun t => .danglingTerm row t.1

/-- The rows that mention a column, with what their terms on it add up to. -/
def columnEntries (p : Problem Float) (column : Nat) : List (Nat × Float) :=
  (numberedRows p).filterMap fun (terms, row) =>
    match terms.filter fun t => t.1 = column with
    | [] => none
    | ts => some (row, ts.foldl (fun sum t => sum + t.2) 0)

def headLines (p : Problem Float) : List String :=
  let words := (Text.words p.name.toList).map String.ofList
  let name := if words.isEmpty then "MODEL" else "_".intercalate words
  let direction := match p.objective.direction with
    | .maximize => "    MAX"
    | .minimize => "    MIN"
  ["NAME " ++ name, "OBJSENSE", direction]

def senseLetter : Sense → String
  | .lessEqual => "L"
  | .equal => "E"
  | .greaterEqual => "G"

def rowLines (p : Problem Float) : List String :=
  "ROWS" :: " N  OBJ" :: p.constraints.zipIdx.map fun (c, i) =>
    " " ++ senseLetter c.sense ++ "  " ++ rowName (i + 1)

def markerLine (word : String) : String :=
  "    MARKER  'MARKER'  '" ++ word ++ "'"

def entryLine (name row value : String) : String :=
  "    " ++ name ++ "  " ++ row ++ "  " ++ value

def entryLines (p : Problem Float) (c : Column Float) (i : Nat) : List String :=
  match columnEntries p i with
  | [] => [entryLine c.name (rowName 0) "0"]
  | entries => entries.map fun (row, value) =>
    entryLine c.name (rowName row) (Scalar.text value)

/-- Integer columns stand between a pair of markers. -/
def columnLinesFrom (p : Problem Float) : Bool → List (Column Float × Nat) → List String
  | true, [] => [markerLine "INTEND"]
  | false, [] => []
  | inBlock, (c, i) :: rest =>
    let marker :=
      if c.isInteger = inBlock then []
      else [markerLine (if inBlock then "INTEND" else "INTORG")]
    marker ++ entryLines p c i ++ columnLinesFrom p c.isInteger rest

def columnLines (p : Problem Float) : List String :=
  "COLUMNS" :: columnLinesFrom p false p.columns.zipIdx

def rightHandSideLines (p : Problem Float) : List String :=
  "RHS" :: p.constraints.zipIdx.filterMap fun (c, i) =>
    if c.bound == 0 then none else some (entryLine "RHS" (rowName (i + 1)) (Scalar.text c.bound))

def boundLine (kind name : String) : String :=
  " " ++ kind ++ " BND  " ++ name

def valueLine (kind name : String) (value : Float) : String :=
  boundLine kind name ++ "  " ++ Scalar.text value

def columnBoundLines (c : Column Float) : List String :=
  if c.isBinary then [boundLine "BV" c.name]
  else match c.lower, c.upper with
    | none, none => [boundLine "FR" c.name]
    | none, some u => [boundLine "MI" c.name, valueLine "UP" c.name u]
    | some l, none => [valueLine "LO" c.name l]
    | some l, some u =>
      if l == u then [valueLine "FX" c.name l]
      else [valueLine "LO" c.name l, valueLine "UP" c.name u]

def boundLines (p : Problem Float) : List String :=
  "BOUNDS" :: p.columns.flatMap columnBoundLines

def allLines (p : Problem Float) : List String :=
  headLines p ++ rowLines p ++ columnLines p ++ rightHandSideLines p ++ boundLines p ++ ["ENDATA"]

def write (p : Problem Float) : Except Obstacle String :=
  match obstacle? p with
  | some o => .error o
  | none => .ok (String.join ((allLines p).map (· ++ "\n")))

end LinearProgram.Mps
