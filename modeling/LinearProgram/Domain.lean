import LinearProgram.Column
import LinearProgram.Text.Blank
import LinearProgram.Text.Case

/-! The domain of a variable: integer or real, and with which range. -/

namespace LinearProgram

inductive NumericKind where
  | integer
  | real
deriving DecidableEq

def NumericKind.name : NumericKind → String
  | .integer => "Integer"
  | .real => "Real"

inductive RangeKind where
  | unconstrained
  | nonNegative
  | binary
deriving DecidableEq

def RangeKind.name : RangeKind → String
  | .unconstrained => "Unconstrained"
  | .nonNegative => "NonNegative"
  | .binary => "Binary"

/-- The flag `constant` marks what is known to keep one value; it restricts nothing. -/
structure Domain where
  kind : NumericKind
  range : RangeKind
  constant : Bool := false
deriving DecidableEq

namespace Domain

def anyInteger : Domain := { kind := .integer, range := .unconstrained }
def anyReal : Domain := { kind := .real, range := .unconstrained }
def nonNegativeInteger : Domain := { kind := .integer, range := .nonNegative }
def nonNegativeReal : Domain := { kind := .real, range := .nonNegative }
def binaryInteger : Domain := { kind := .integer, range := .binary }

def asConstant (d : Domain) : Domain :=
  { d with constant := true }

def isInteger (d : Domain) : Bool :=
  d.kind == .integer

def isBinary (d : Domain) : Bool :=
  d.range == .binary

/-- A binary variable is an integer one. -/
def isSupported (d : Domain) : Bool :=
  d.isInteger || !d.isBinary

def name (d : Domain) : String :=
  let range := match d.range with
    | .unconstrained => "Any"
    | .nonNegative => "NonNegative"
    | .binary => "Binary"
  range ++ (if d.constant then "Constant" else "") ++ d.kind.name

def supported : List Domain :=
  [anyInteger, anyReal, anyInteger.asConstant, anyReal.asConstant,
    nonNegativeInteger, nonNegativeReal, nonNegativeInteger.asConstant, nonNegativeReal.asConstant,
    binaryInteger, binaryInteger.asConstant]

def ofName? (s : String) : Option Domain :=
  supported.find? fun d => Text.sameLetters d.name.toList (Text.trim s.toList)

variable {α : Type} [Scalar α]

/-- Whether a variable of this domain may take the value. -/
def admits (d : Domain) (value : α) : Bool :=
  let inRange := match d.range with
    | .unconstrained => true
    | .nonNegative => Scalar.le 0 value
    | .binary => value == 0 || value == 1
  Scalar.isFinite value && (!d.isInteger || Scalar.isIntegral value) && inRange

/-- The domain that a column read from elsewhere is given. -/
def infer (c : Column α) : Domain :=
  let range := if c.lower.isNone then .unconstrained else .nonNegative
  match c.type with
  | .binary => binaryInteger
  | .integer => { kind := .integer, range }
  | .continuous => { kind := .real, range }

end Domain

end LinearProgram
