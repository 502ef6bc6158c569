import LinearProgram.Decimal.Numeral
import LinearProgram.Json.Document

/-! Values out of JSON documents. A record is an object that may have members nobody asked for,
or an array of exactly its fields in order. -/

namespace LinearProgram.Json

/-- How the text of a number is read. A number that is too large is refused. -/
class NumberReader where
  read? : List Char → Option Float

def toFloat? [NumberReader] : Json → Option Float
  | .number numeral => NumberReader.read? numeral
  | _ => none

/-- Only digits, and small enough for 64 bits. -/
def toNat? : Json → Option Nat
  | .number numeral =>
    let n := Decimal.digitsValue numeral
    if numeral.all Char.isDigit && n < UInt64.size then some n else none
  | _ => none

/-- Digits after an optional minus, within 32 bits. A zero has no minus. -/
def toInt32? : Json → Option Int
  | .number ('-' :: cs) =>
    let n := Decimal.digitsValue cs
    if cs.all Char.isDigit && 0 < n && n ≤ UInt32.size / 2 then some (-n) else none
  | .number cs =>
    let n := Decimal.digitsValue cs
    if cs.all Char.isDigit && n < UInt32.size / 2 then some n else none
  | _ => none

def toBool? : Json → Option Bool
  | .bool b => some b
  | _ => none

def toText? : Json → Option String
  | .string s => s
  | _ => none

def toList? {α : Type} (f : Json → Option α) : Json → Option (List α)
  | .array items => items.mapM f
  | _ => none

def toPair? {α β : Type} (f : Json → Option α) (g : Json → Option β) : Json → Option (α × β)
  | .array [a, b] => do return (← f a, ← g b)
  | _ => none

/-- A word, by itself or as the only key over a null. -/
def toWord? : Json → Option String
  | .string s => s
  | .object [(key, .null)] => key
  | _ => none

def toNamed? {α : Type} (table : List (String × α)) (j : Json) : Option α :=
  j.toWord?.bind fun w => table.lookup w

/-- What the object has under a key. A key that stands there twice is refused. -/
def member? (members : List (Option String × Json)) (key : String) : Option (Option Json) :=
  match members.filter fun m => m.1 = some key with
  | [] => some none
  | [m] => some (some m.2)
  | _ => none

/-- The fields of a record, each `none` where an object leaves it out. -/
def fields? (keys : List String) : Json → Option (List (Option Json))
  | .array items => if items.length = keys.length then some (items.map some) else none
  | .object members =>
    if members.all fun m => m.1.isSome then keys.mapM (member? members) else none
  | _ => none

def required? {α : Type} (f : Json → Option α) : Option Json → Option α
  | some j => f j
  | none => none

/-- A field that may be left out or null. -/
def optional? {α : Type} (f : Json → Option α) : Option Json → Option (Option α)
  | none => some none
  | some .null => some none
  | some j => (f j).map some

end LinearProgram.Json
