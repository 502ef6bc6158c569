/-! What can be wrong with a line of a free MPS file. -/

namespace LinearProgram.Mps

inductive Fault where
  | notANumber (word : String)
  | unknownDirection (word : String)
  | rowShape
  | unknownRowType (word : String)
  | duplicateRow (name : String)
  | unknownMarker (word : String)
  | columnShape
  | boundSetShape
  | unknownRow (name : String)
  | boundShape
  | unknownColumn (name : String)
  | unknownBoundType (word : String)
  | unknownSection (word : String)
  | rangesUnsupported
  | outsideSection
  | missingEnd
deriving DecidableEq

def quoted (s : String) : String :=
  "'" ++ s ++ "'"

def Fault.message : Fault → String
  | notANumber word => quoted word ++ " is not a number"
  | unknownDirection word => "unknown objective sense " ++ quoted word
  | rowShape => "expected row type and row name"
  | unknownRowType word => "unknown row type " ++ quoted word
  | duplicateRow name => "duplicate row " ++ quoted name
  | unknownMarker word => "unknown marker " ++ quoted word
  | columnShape => "expected a column name followed by row/value pairs"
  | boundSetShape => "expected row/value pairs"
  | unknownRow name => "unknown row " ++ quoted name
  | boundShape => "malformed bound entry"
  | unknownColumn name => "unknown column " ++ quoted name
  | unknownBoundType word => "unknown bound type " ++ quoted word
  | unknownSection word => "unknown section " ++ quoted word
  | rangesUnsupported => "RANGES section is not supported"
  | outsideSection => "data line outside of a section"
  | missingEnd => "missing ENDATA"

end LinearProgram.Mps
