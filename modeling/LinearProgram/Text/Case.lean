/-! Comparing words without regard to the case of the letters a to z. -/

namespace LinearProgram.Text

def lower (cs : List Char) : List Char :=
  cs.map Char.toLower

def upper (cs : List Char) : List Char :=
  cs.map Char.toUpper

def sameLetters (a b : List Char) : Bool :=
  lower a == lower b

end LinearProgram.Text
