import LinearProgram.Decimal.Layout
import LinearProgram.Json.Document

/-! Writing JSON, with or without line breaks. -/

namespace LinearProgram.Json

def hexDigits (n : Nat) : List Char :=
  let cs := Nat.toDigits 16 n
  List.replicate (4 - cs.length) '0' ++ cs

def escapeChar (c : Char) : List Char :=
  match c with
  | '"' => ['\\', '"']
  | '\\' => ['\\', '\\']
  | '\x08' => ['\\', 'b']
  | '\x0c' => ['\\', 'f']
  | '\n' => ['\\', 'n']
  | '\r' => ['\\', 'r']
  | '\t' => ['\\', 't']
  | _ => if c.toNat < 0x20 then '\\' :: 'u' :: hexDigits c.toNat else [c]

def quote (s : String) : List Char :=
  '"' :: (s.toList.flatMap escapeChar ++ ['"'])

/-- A broken string has no text, so it is written as an empty one. -/
def quoteText (s : Option String) : List Char :=
  quote (s.getD "")

/-- Whole numbers keep a point, very large and very small ones get a power of ten, and what is
not finite has no number at all. -/
def floatLayout : Decimal.Layout where
  tie := .even
  positional e := -5 ≤ e && e < 16
  whole := ['.', '0']
  nan := "null".toList
  infinity := "null".toList
  minusInfinity := "null".toList

def float (x : Float) : Json :=
  if Binary64.isFinite x then .number (floatLayout.chars x) else .null

def int (n : Int) : Json :=
  .number (if n < 0 then '-' :: Decimal.digitChars n.natAbs else Decimal.digitChars n.natAbs)

def nat (n : Nat) : Json :=
  .number (Decimal.digitChars n)

def text (s : String) : Json :=
  .string (some s)

def record (members : List (String × Json)) : Json :=
  .object (members.map fun (k, v) => (some k, v))

def option {α : Type} (f : α → Json) : Option α → Json
  | some a => f a
  | none => .null

/-- The break before an item at the given depth. -/
def lineBreak (depth : Nat) : List Char :=
  '\n' :: List.replicate (2 * depth) ' '

def separate (separator : List Char) : List (List Char) → List Char
  | [] => []
  | [x] => x
  | x :: xs => x ++ separator ++ separate separator xs

mutual

def compactChars : Json → List Char
  | .null => "null".toList
  | .bool b => if b then "true".toList else "false".toList
  | .number numeral => numeral
  | .string s => quoteText s
  | .array items => '[' :: (separate [','] (compactItems items) ++ [']'])
  | .object members => '{' :: (separate [','] (compactMembers members) ++ ['}'])

def compactItems : List Json → List (List Char)
  | [] => []
  | j :: js => compactChars j :: compactItems js

def compactMembers : List (Option String × Json) → List (List Char)
  | [] => []
  | (k, j) :: ms => (quoteText k ++ ':' :: compactChars j) :: compactMembers ms

end

mutual

/-- One item or member a line, two blanks deeper than what holds it. -/
def prettyChars (depth : Nat) : Json → List Char
  | .null => "null".toList
  | .bool b => if b then "true".toList else "false".toList
  | .number numeral => numeral
  | .string s => quoteText s
  | .array [] => ['[', ']']
  | .array items =>
    '[' :: (separate [','] (prettyItems (depth + 1) items) ++ lineBreak depth ++ [']'])
  | .object [] => ['{', '}']
  | .object members =>
    '{' :: (separate [','] (prettyMembers (depth + 1) members) ++ lineBreak depth ++ ['}'])

def prettyItems (depth : Nat) : List Json → List (List Char)
  | [] => []
  | j :: js => (lineBreak depth ++ prettyChars depth j) :: prettyItems depth js

def prettyMembers (depth : Nat) : List (Option String × Json) → List (List Char)
  | [] => []
  | (k, j) :: ms =>
    (lineBreak depth ++ quoteText k ++ ':' :: ' ' :: prettyChars depth j) ::
      prettyMembers depth ms

end

def compact (j : Json) : String :=
  String.ofList j.compactChars

def pretty (j : Json) : String :=
  String.ofList (j.prettyChars 0)

end LinearProgram.Json
