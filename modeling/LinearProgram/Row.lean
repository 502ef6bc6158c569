import LinearProgram.Identifier
import LinearProgram.Scalar

/-! Linear rows: what has been added on each column, in column order. -/

namespace LinearProgram

abbrev Term (α : Type) := ColumnId × α

def addTerm {α : Type} [Scalar α] (c : ColumnId) (a : α) : List (Term α) → List (Term α)
  | [] => [(c, 0 + a)]
  | (d, b) :: ts =>
    if c.number < d.number then (c, 0 + a) :: (d, b) :: ts
    else if c = d then (d, b + a) :: ts
    else (d, b) :: addTerm c a ts

theorem mem_addTerm {α : Type} [Scalar α] {c : ColumnId} {a : α} {ts : List (Term α)} {t : Term α}
    (h : t ∈ addTerm c a ts) : t.1 = c ∨ ∃ s ∈ ts, s.1 = t.1 := by
  induction ts with
  | nil => simp_all [addTerm]
  | cons s ts ih =>
    obtain ⟨d, b⟩ := s
    simp only [addTerm] at h
    split at h
    · rcases List.mem_cons.1 h with rfl | h
      · exact .inl rfl
      · exact .inr ⟨t, h, rfl⟩
    · split at h
      · rcases List.mem_cons.1 h with rfl | h
        · exact .inr ⟨(d, b), List.mem_cons_self, rfl⟩
        · exact .inr ⟨t, List.mem_cons_of_mem _ h, rfl⟩
      · rcases List.mem_cons.1 h with rfl | h
        · exact .inr ⟨(d, b), List.mem_cons_self, rfl⟩
        · rcases ih h with h | ⟨s, hs, hc⟩
          · exact .inl h
          · exact .inr ⟨s, List.mem_cons_of_mem _ hs, hc⟩

def Increasing {α : Type} (ts : List (Term α)) : Prop :=
  ts.Pairwise fun s t => s.1.number < t.1.number

theorem Increasing.addTerm {α : Type} [Scalar α] {ts : List (Term α)} (h : Increasing ts)
    (c : ColumnId) (a : α) : Increasing (addTerm c a ts) := by
  induction ts with
  | nil => simp [LinearProgram.addTerm, Increasing]
  | cons s ts ih =>
    obtain ⟨d, b⟩ := s
    obtain ⟨hd, hts⟩ := List.pairwise_cons.1 h
    simp only [LinearProgram.addTerm]
    split
    · rename_i hc
      refine List.pairwise_cons.2 ⟨fun t ht => ?_, h⟩
      rcases List.mem_cons.1 ht with rfl | ht
      · exact hc
      · exact Nat.lt_trans hc (hd t ht)
    · split
      · exact List.pairwise_cons.2 ⟨hd, hts⟩
      · rename_i hc hne
        refine List.pairwise_cons.2 ⟨fun t ht => ?_, ih hts⟩
        rcases mem_addTerm ht with he | ⟨s, hs, he⟩
        · have hn : c.number ≠ d.number := fun e => hne (by cases c; cases d; simp_all)
          show d.number < t.1.number
          rw [he]
          omega
        · exact he ▸ hd s hs

structure LinearRow (α : Type) where
  entries : List (Term α)
  increasing : Increasing entries

namespace LinearRow

variable {α : Type}

def empty : LinearRow α :=
  ⟨[], .nil⟩

@[simp] theorem entries_empty : (empty : LinearRow α).entries = [] := rfl

variable [Scalar α]

def add (r : LinearRow α) (c : ColumnId) (a : α) : LinearRow α :=
  ⟨addTerm c a r.entries, r.increasing.addTerm c a⟩

@[simp] theorem entries_add (r : LinearRow α) (c : ColumnId) (a : α) :
    (r.add c a).entries = LinearProgram.addTerm c a r.entries := rfl

def ofTerms (ts : List (Term α)) : LinearRow α :=
  ts.foldl (fun r t => r.add t.1 t.2) empty

/-- Zero on a column that was never added. -/
def coefficient (r : LinearRow α) (c : ColumnId) : α :=
  ((r.entries.find? fun t => t.1 = c).map (·.2)).getD 0

/-- The columns that did not cancel. -/
def terms (r : LinearRow α) : List (Term α) :=
  r.entries.filter fun t => !(t.2 == 0)

theorem mem_terms {r : LinearRow α} {t : Term α} :
    t ∈ r.terms ↔ t ∈ r.entries ∧ (t.2 == 0) = false := by
  simp [terms]

theorem increasing_terms (r : LinearRow α) : Increasing r.terms :=
  List.Pairwise.sublist List.filter_sublist r.increasing

/-- Compares the stored coefficients, cancelled ones included. -/
instance : BEq (LinearRow α) where
  beq r s := r.entries == s.entries

end LinearRow

end LinearProgram
