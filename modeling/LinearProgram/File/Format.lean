import LinearProgram.Text.Case

/-! Paths of model files, and the form that the extension of a path asks for. -/

namespace LinearProgram

namespace Path

def split : List Char → List (List Char)
  | [] => [[]]
  | c :: cs =>
    match split cs with
    | [] => [[c]]
    | p :: ps => if c = '/' then [] :: p :: ps else (c :: p) :: ps

/-- The last part that names something. Empty parts and single dots name nothing, and two dots
name a directory. -/
def fileName? (path : String) : Option (List Char) :=
  match ((split path.toList).filter fun p => p ≠ [] ∧ p ≠ ['.']).getLast? with
  | some ['.', '.'] => none
  | name => name

/-- What follows the last dot, unless nothing comes before that dot. -/
def extension? (path : String) : Option (List Char) :=
  (fileName? path).bind fun name =>
    let back := name.reverse
    let stem := back.dropWhile (· ≠ '.')
    if stem.length ≤ 1 then none else some (back.takeWhile (· ≠ '.')).reverse

end Path

/-- The native form keeps all of a program, the other is read by other solvers too. -/
inductive Format where
  | json
  | freeMps
deriving DecidableEq

def Format.name : Format → String
  | .json => "Json"
  | .freeMps => "FreeMps"

def Format.ofPath (path : String) : Format :=
  match Path.extension? path with
  | some e => if Text.sameLetters e "json".toList then .json else .freeMps
  | none => .freeMps

end LinearProgram
