/-! The numbers that columns, rows and models go by. Columns and rows count from one. -/

namespace LinearProgram

structure ColumnId where
  number : Nat
deriving DecidableEq

namespace ColumnId

/-- The place of the column in a list of columns. Number zero names no column. -/
def offset (c : ColumnId) : Nat :=
  c.number - 1

def ofOffset (n : Nat) : ColumnId :=
  ⟨n + 1⟩

def text (c : ColumnId) : String :=
  "C" ++ Nat.repr c.number

@[simp] theorem offset_ofOffset (n : Nat) : (ofOffset n).offset = n := rfl

theorem ofOffset_offset {c : ColumnId} (h : c.number ≠ 0) : ofOffset c.offset = c := by
  obtain ⟨n⟩ := c
  simp only [ofOffset, offset, mk.injEq]
  exact Nat.sub_add_cancel (Nat.pos_of_ne_zero h)

end ColumnId

structure RowId where
  number : Nat
deriving DecidableEq

def RowId.text (r : RowId) : String :=
  "R" ++ Nat.repr r.number

structure ModelId where
  number : Nat
deriving DecidableEq

end LinearProgram
