import LinearProgram.File.Format

/-! Files in directories, without links. A path leads to a file from the root or from the working
directory. -/

namespace LinearProgram

/-- The names on the way from the root. -/
abbrev Place := List String

/-- What is on the way to the working directory is a directory, whether it is named or not. -/
structure Files where
  entries : List (Place × ByteArray) := []
  directories : List Place := []
  workingDirectory : Place := []

namespace Files

/-- The longest name, in bytes. -/
def nameLimit : Nat := 255

def isDirectory (fs : Files) (place : Place) : Bool :=
  place.isPrefixOf fs.workingDirectory || fs.directories.contains place

/-- The directory that one part of a path leads to. No part and a single dot stay, two dots lead
back. -/
def walk? (fs : Files) (place : Place) (part : List Char) : Option Place :=
  if part = [] ∨ part = ['.'] then some place
  else if part = ['.', '.'] then some place.dropLast
  else
    let next := place ++ [String.ofList part]
    if fs.isDirectory next then some next else none

def isName (part : List Char) : Bool :=
  part != [] && part != ['.'] && part != ['.', '.'] &&
    (String.ofList part).utf8ByteSize ≤ nameLimit && !part.contains '\x00'

/-- Where a path leads, through directories that are there, if a file can be in that place. -/
def place? (fs : Files) (path : String) : Option Place := do
  let parts := Path.split path.toList
  let start := if path.toList.head? = some '/' then [] else fs.workingDirectory
  let directory ← parts.dropLast.foldlM fs.walk? start
  let name ← parts.getLast?
  let place := directory ++ [String.ofList name]
  if isName name && !fs.isDirectory place then some place else none

/-- A path is kept by where it leads, not by how it is spelled. -/
example :
    let fs : Files := { directories := [["tmp"]], workingDirectory := ["home"] }
    fs.place? "/tmp/m.json" = some ["tmp", "m.json"] ∧
      fs.place? "./..//tmp/m.json" = some ["tmp", "m.json"] ∧ fs.place? "/var/m.json" = none := by
  decide +kernel

def read? (fs : Files) (path : String) : Option ByteArray :=
  (fs.place? path).bind fun place => fs.entries.lookup place

/-- Nothing where there is no such file or its bytes are not text. -/
def readText? (fs : Files) (path : String) : Option String :=
  (fs.read? path).bind String.fromUTF8?

def write? (fs : Files) (path : String) (content : ByteArray) : Option Files :=
  (fs.place? path).map fun place =>
    { fs with entries := (place, content) :: fs.entries.filter fun e => e.1 ≠ place }

theorem read?_of_write? {fs fs' : Files} {path : String} {content : ByteArray}
    (h : fs.write? path content = some fs') : fs'.read? path = some content := by
  obtain ⟨place, hp, rfl⟩ := Option.map_eq_some_iff.1 h
  -- files come and go, directories do not
  let entries := (place, content) :: fs.entries.filter fun e => e.1 ≠ place
  have hsame : Files.place? { fs with entries := entries } path = some place := hp
  rw [read?, hsame, Option.bind_some, List.lookup_cons_self]

def writeText? (fs : Files) (path : String) (text : String) : Option Files :=
  fs.write? path text.toUTF8

end Files

end LinearProgram
