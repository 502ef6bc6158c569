import LinearProgram.Text.Blank
import LinearProgram.Text.Case

/-! Which solver a program asks for, and with which limits. -/

namespace LinearProgram

inductive SolverChoice where
  | auto
  | coinCbc
  | highs
  | microlp
deriving DecidableEq

namespace SolverChoice

def text : SolverChoice → String
  | .auto => "Auto"
  | .coinCbc => "COIN-OR CBC"
  | .highs => "HiGHS"
  | .microlp => "microlp"

/-- The words a solver is asked for by. -/
def aliases : List (String × SolverChoice) :=
  [("auto", .auto), ("cbc", .coinCbc), ("coin_cbc", .coinCbc), ("coin-cbc", .coinCbc),
    ("highs", .highs), ("microlp", .microlp)]

/-- An unknown word is given back as it was compared: trimmed and in lower case. -/
def ofWord (s : String) : Except String SolverChoice :=
  let word := String.ofList (Text.lower (Text.trim s.toList))
  match aliases.lookup word with
  | some choice => .ok choice
  | none => .error word

def unknownWord (word : String) : String :=
  "unknown solver backend '" ++ word ++ "'"

end SolverChoice

structure Config (α : Type) where
  solver : SolverChoice := .auto
  timeLimit : Option α := none
  gapTolerance : Option α := none
  verbose : Bool := false
deriving BEq

end LinearProgram
