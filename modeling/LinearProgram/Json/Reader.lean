import LinearProgram.Decimal.Numeral
import LinearProgram.Json.Document

/-! Reading JSON text. Each reader takes the text from where its construct starts and gives back
what follows it. -/

namespace LinearProgram.Json

def skipBlanks (cs : List Char) : List Char :=
  cs.dropWhile fun c => c = ' ' || c = '\n' || c = '\t' || c = '\r'

/-- What is left after the expected characters. -/
def skip? : List Char → List Char → Option (List Char)
  | [], cs => some cs
  | e :: es, c :: cs => if e = c then skip? es cs else none
  | _ :: _, [] => none

def hexValue? (c : Char) : Option Nat :=
  if '0' ≤ c && c ≤ '9' then some (c.toNat - '0'.toNat)
  else if 'a' ≤ c && c ≤ 'f' then some (c.toNat - 'a'.toNat + 10)
  else if 'A' ≤ c && c ≤ 'F' then some (c.toNat - 'A'.toNat + 10)
  else none

def hexNumber? (cs : List Char) : Option Nat :=
  cs.foldl (fun n c => n.bind fun n => (hexValue? c).map (16 * n + ·)) (some 0)

/-- The characters that a backslash and one letter stand for. -/
def shortEscape? : Char → Option Char
  | '"' => some '"'
  | '\\' => some '\\'
  | '/' => some '/'
  | 'b' => some '\x08'
  | 'f' => some '\x0c'
  | 'n' => some '\n'
  | 'r' => some '\r'
  | 't' => some '\t'
  | _ => none

/-- A character of a string, or one of the halves that an escape may name. -/
inductive Unit16 where
  | char (c : Char)
  | high (n : Nat)
  | low (n : Nat)

def Unit16.ofCode (n : Nat) : Unit16 :=
  if 0xD800 ≤ n && n < 0xDC00 then .high n
  else if 0xDC00 ≤ n && n < 0xE000 then .low n
  else .char (Char.ofNat n)

/-- A high half and the low half right after it make one character; no other half stands for
anything. -/
def joinUnits : List Unit16 → Option (List Char)
  | [] => some []
  | .char c :: us => (joinUnits us).map (c :: ·)
  | .high h :: .low l :: us =>
    (joinUnits us).map (Char.ofNat (0x10000 + (h - 0xD800) * 0x400 + (l - 0xDC00)) :: ·)
  | _ => none

/-- The units up to the closing quote. -/
def readUnits? : List Char → Option (List Unit16 × List Char)
  | [] => none
  | '"' :: cs => some ([], cs)
  | '\\' :: 'u' :: a :: b :: c :: d :: cs =>
    match hexNumber? [a, b, c, d], readUnits? cs with
    | some n, some (us, rest) => some (Unit16.ofCode n :: us, rest)
    | _, _ => none
  | '\\' :: c :: cs =>
    match shortEscape? c, readUnits? cs with
    | some e, some (us, rest) => some (.char e :: us, rest)
    | _, _ => none
  | c :: cs =>
    if c.toNat < 0x20 then none
    else (readUnits? cs).map fun (us, rest) => (.char c :: us, rest)

def readString? (cs : List Char) : Option (Option String × List Char) :=
  (readUnits? cs).map fun (us, rest) => ((joinUnits us).map String.ofList, rest)

/-- Either a lone zero or digits that do not start with one. -/
def readWhole? (cs : List Char) : Option (List Char × List Char) :=
  match cs with
  | '0' :: rest => some (['0'], rest)
  | _ =>
    let (ds, rest) := Decimal.digitRun cs
    if ds.isEmpty then none else some (ds, rest)

/-- A point and at least one digit, or nothing. -/
def readPart? : List Char → Option (List Char × List Char)
  | '.' :: cs =>
    let (ds, rest) := Decimal.digitRun cs
    if ds.isEmpty then none else some ('.' :: ds, rest)
  | cs => some ([], cs)

/-- A power of ten with at least one digit, or nothing. -/
def readPower? : List Char → Option (List Char × List Char)
  | c :: cs =>
    if c = 'e' ∨ c = 'E' then
      let (sign, cs) := match cs with
        | '+' :: cs => (['+'], cs)
        | '-' :: cs => (['-'], cs)
        | cs => ([], cs)
      let (ds, rest) := Decimal.digitRun cs
      if ds.isEmpty then none else some (c :: (sign ++ ds), rest)
    else some ([], c :: cs)
  | [] => some ([], [])

def readNumber? (cs : List Char) : Option (List Char × List Char) := do
  let (sign, cs) := match cs with
    | '-' :: cs => (['-'], cs)
    | cs => ([], cs)
  let (whole, cs) ← readWhole? cs
  let (part, cs) ← readPart? cs
  let (power, cs) ← readPower? cs
  return (sign ++ whole ++ part ++ power, cs)

/-- The depth is the number of constructs that may still be opened. -/
def readValue? (depth : Nat) (cs : List Char) : Option (Json × List Char) :=
  match depth with
  | 0 => none
  | depth + 1 =>
    match skipBlanks cs with
    | [] => none
    | '"' :: cs => (readString? cs).map fun (s, rest) => (.string s, rest)
    | 'n' :: cs => (skip? "ull".toList cs).map fun rest => (.null, rest)
    | 't' :: cs => (skip? "rue".toList cs).map fun rest => (.bool true, rest)
    | 'f' :: cs => (skip? "alse".toList cs).map fun rest => (.bool false, rest)
    | '[' :: cs =>
      match skipBlanks cs with
      | ']' :: rest => some (.array [], rest)
      | cs => (readItems? depth cs).map fun (items, rest) => (.array items, rest)
    | '{' :: cs =>
      match skipBlanks cs with
      | '}' :: rest => some (.object [], rest)
      | cs => (readMembers? depth cs).map fun (members, rest) => (.object members, rest)
    | cs => (readNumber? cs).map fun (numeral, rest) => (.number numeral, rest)
where
  /-- The items of an array up to its closing bracket. -/
  readItems? (depth : Nat) (cs : List Char) : Option (List Json × List Char) :=
    match depth with
    | 0 => none
    | depth + 1 => do
      let (item, cs) ← readValue? depth cs
      match skipBlanks cs with
      | ',' :: cs =>
        let (items, rest) ← readItems? depth cs
        return (item :: items, rest)
      | ']' :: rest => return ([item], rest)
      | _ => none
  /-- The members of an object up to its closing brace. -/
  readMembers? (depth : Nat) (cs : List Char) :
      Option (List (Option String × Json) × List Char) :=
    match depth with
    | 0 => none
    | depth + 1 =>
      match skipBlanks cs with
      | '"' :: cs => do
        let (key, cs) ← readString? cs
        match skipBlanks cs with
        | ':' :: cs =>
          let (item, cs) ← readValue? depth cs
          match skipBlanks cs with
          | ',' :: cs =>
            let (members, rest) ← readMembers? depth cs
            return ((key, item) :: members, rest)
          | '}' :: rest => return ([(key, item)], rest)
          | _ => none
        | _ => none
      | _ => none

/-- One document with nothing but blanks around it. Every construct takes at least one character,
so the length of the text bounds their number. -/
def read? (text : String) : Option Json :=
  let cs := text.toList
  match readValue? (2 * cs.length + 2) cs with
  | some (j, rest) => if (skipBlanks rest).isEmpty then some j else none
  | none => none

end LinearProgram.Json
