/-! JSON documents. -/

namespace LinearProgram

/-- Numbers are kept as they are written. A string is `none` where an escape leaves half of a
surrogate pair: it has a place in a document but stands for no text. -/
inductive Json where
  | null
  | bool (b : Bool)
  | number (numeral : List Char)
  | string (s : Option String)
  | array (items : List Json)
  | object (members : List (Option String × Json))

end LinearProgram
