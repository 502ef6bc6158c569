import LinearProgram.Domain
import LinearProgram.Identifier
import LinearProgram.Model.Error

/-! The variables of a model, by the column that stands for each. -/

namespace LinearProgram

/-- A handle. It names a column of one model as it was between two loads. -/
structure Variable where
  model : ModelId
  generation : Nat
  column : ColumnId
deriving DecidableEq

structure VariableInfo (α : Type) where
  name : String
  domain : Domain
  /-- The value, where it is known beforehand. -/
  constant : Option α := none
  /-- The operation that the variable is the result of. -/
  expression : Option String := none

structure Registry (α : Type) where
  model : ModelId
  generation : Nat := 0
  entries : List (VariableInfo α) := []
  /-- The number in the last generated name. -/
  anonymous : Nat := 0

namespace Registry

variable {α : Type}

def handle (r : Registry α) (c : ColumnId) : Variable :=
  ⟨r.model, r.generation, c⟩

def nextColumn (r : Registry α) : ColumnId :=
  ColumnId.ofOffset r.entries.length

def isTaken (r : Registry α) (name : String) : Bool :=
  r.entries.any fun e => e.name = name

def generatedName (n : Nat) : String :=
  "_t" ++ Nat.repr n

/-- The first number after `n` whose name is free. One of the first `fuel + 1` is, if no more than
`fuel` names are taken. -/
def firstFree (r : Registry α) : Nat → Nat → Nat
  | 0, n => n + 1
  | fuel + 1, n => if r.isTaken (generatedName (n + 1)) then r.firstFree fuel (n + 1) else n + 1

def nextAnonymous (r : Registry α) : Nat :=
  r.firstFree r.entries.length r.anonymous

def insert (r : Registry α) (info : VariableInfo α) : Registry α :=
  { r with entries := r.entries ++ [info] }

def resolve (r : Registry α) (v : Variable) : Except (ModelError α) ColumnId :=
  if v.model ≠ r.model then .error .foreignVariable
  else if v.generation ≠ r.generation ∨ v.column.number = 0 ∨
      r.entries.length ≤ v.column.offset then .error (.staleVariable v.column)
  else .ok v.column

theorem resolve_eq_ok_iff {r : Registry α} {v : Variable} {c : ColumnId} :
    r.resolve v = .ok c ↔ v.model = r.model ∧ v.generation = r.generation ∧ v.column = c ∧
      c.number ≠ 0 ∧ c.offset < r.entries.length := by
  simp only [resolve]
  split
  · simp_all
  · rename_i hm
    split
    · rename_i h
      simp only [reduceCtorEq, false_iff]
      rintro ⟨-, hg, rfl, hc, hl⟩
      rcases h with h | h | h
      · exact h hg
      · exact hc h
      · exact Nat.not_le_of_lt hl h
    · rename_i h
      simp only [not_or, ne_eq, Decidable.not_not, Nat.not_le] at h hm
      simp only [Except.ok.injEq]
      constructor
      · rintro rfl
        exact ⟨hm, h.1, rfl, h.2⟩
      · exact fun hv => hv.2.2.1

def info (r : Registry α) (v : Variable) : Except (ModelError α) (VariableInfo α) := do
  let c ← r.resolve v
  match r.entries[c.offset]? with
  | some e => .ok e
  | none => .error (.staleVariable c)

/-- Of several variables of one name, the one made last. -/
def named? (r : Registry α) (name : String) : Option Variable :=
  (r.entries.zipIdx.reverse.find? fun e => e.1.name = name).map fun e =>
    r.handle (ColumnId.ofOffset e.2)

def handles (r : Registry α) : List Variable :=
  (List.range r.entries.length).map fun i => r.handle (ColumnId.ofOffset i)

/-- Starts over with other variables. No handle from before stands for any of them. -/
def reset (r : Registry α) (entries : List (VariableInfo α)) : Registry α :=
  { r with generation := r.generation + 1, entries, anonymous := 0 }

end Registry

end LinearProgram
