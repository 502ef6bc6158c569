import LinearProgram.Backend.Basic
import LinearProgram.Binary64.Arithmetic

/-! Bounds given as two numbers. An infinity that is no bound at all is kept as an absent one. -/

namespace LinearProgram

def lowerLimit? (x : Float) : Option Float :=
  if x == -Binary64.infinity then none else some x

def upperLimit? (x : Float) : Option Float :=
  if x == Binary64.infinity then none else some x

def Column.setBounds (c : Column Float) (lower upper : Float) : Column Float :=
  c.withBounds (lowerLimit? lower) (upperLimit? upper)

def Directive.bounds (c : ColumnId) (lower upper : Float) : Directive Float :=
  .setBounds c (lowerLimit? lower) (upperLimit? upper)

end LinearProgram
