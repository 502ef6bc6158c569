import LinearProgram.Scalar

/-! Columns of a program: a name, a kind of number and two bounds. An absent bound is none at
all, so no infinity is needed to write it down. -/

namespace LinearProgram

inductive VariableType where
  | continuous
  | integer
  | binary
deriving DecidableEq

def VariableType.name : VariableType → String
  | .continuous => "Continuous"
  | .integer => "Integer"
  | .binary => "Binary"

structure Column (α : Type) where
  type : VariableType
  lower : Option α
  upper : Option α
  name : String
deriving BEq

namespace Column

variable {α : Type}

def continuous [Scalar α] (name : String) : Column α :=
  ⟨.continuous, some 0, none, name⟩

def integer [Scalar α] (name : String) : Column α :=
  ⟨.integer, some 0, none, name⟩

def binary [Scalar α] (name : String) : Column α :=
  ⟨.binary, some 0, some 1, name⟩

/-- A column of the given type with the bounds it starts from. -/
def ofType [Scalar α] : VariableType → String → Column α
  | .continuous => continuous
  | .integer => integer
  | .binary => binary

def withBounds (c : Column α) (lower upper : Option α) : Column α :=
  { c with lower, upper }

def isInteger (c : Column α) : Bool :=
  c.type != .continuous

def isBinary (c : Column α) : Bool :=
  c.type == .binary

end Column

/-- Neither bound is NaN and they are not crossed. -/
def boundsConsistent {α : Type} [Scalar α] : Option α → Option α → Bool
  | some l, some u => !Scalar.isNaN l && !Scalar.isNaN u && !Scalar.lt u l
  | some l, none => !Scalar.isNaN l
  | none, some u => !Scalar.isNaN u
  | none, none => true

def lowerText {α : Type} [Scalar α] (lower : Option α) : String :=
  (lower.map Scalar.text).getD "-inf"

def upperText {α : Type} [Scalar α] (upper : Option α) : String :=
  (upper.map Scalar.text).getD "inf"

end LinearProgram
