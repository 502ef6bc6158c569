import LinearProgram.Proofs.Feasible
import LinearProgram.Proofs.PlanDirectives

/-! The coefficients of exact rows. A row adds up what comes for a column, so its coefficient there
is the sum over all terms on that column, in whatever order they came. -/

namespace LinearProgram

section Totals

variable {κ ι : Type} [DecidableEq κ] [DecidableEq ι]

/-- What the terms under one key add up to. -/
def total (ts : List (κ × Rat)) (k : κ) : Rat :=
  ((ts.filter fun t => t.1 = k).map (·.2)).sum

@[simp] theorem total_nil (k : κ) : total [] k = 0 := rfl

@[simp] theorem total_cons (t : κ × Rat) (ts : List (κ × Rat)) (k : κ) :
    total (t :: ts) k = t.2 * (if t.1 = k then 1 else 0) + total ts k := by
  by_cases h : t.1 = k <;> simp [total, h]

/-- The keys are weighed by one and zero. -/
theorem total_eq_sum (ts : List (κ × Rat)) (k : κ) :
    total ts k = (ts.map fun t => t.2 * if t.1 = k then 1 else 0).sum := by
  induction ts with
  | nil => rfl
  | cons t ts ih => rw [total_cons, ih, List.map_cons, List.sum_cons]

theorem total_eq_zero {ts : List (κ × Rat)} {k : κ} (h : ∀ t ∈ ts, t.1 ≠ k) : total ts k = 0 := by
  have hnone : ts.filter (fun t => t.1 = k) = [] := by simpa using h
  rw [total, hnone]
  rfl

/-- Keys may be renamed where none is taken for another one. -/
theorem total_map {ts : List (κ × Rat)} {f : κ → ι} {k : κ} (h : ∀ t ∈ ts, f t.1 = f k → t.1 = k) :
    total (ts.map fun t => (f t.1, t.2)) (f k) = total ts k := by
  have hkey : ∀ t ∈ ts, (f t.1 = f k ↔ t.1 = k) := fun t ht => ⟨h t ht, congrArg f⟩
  rw [total_eq_sum, total_eq_sum, List.map_map]
  refine congrArg List.sum (List.map_congr_left fun t ht => ?_)
  simp only [Function.comp_apply, hkey t ht]

theorem total_map_one (ks : List κ) (k : κ) : total (ks.map fun i => (i, 1)) k = ks.count k := by
  induction ks with
  | nil => rfl
  | cons i ks ih => by_cases h : i = k <;> simp [h, ih, add_comm]

theorem total_nonzero (ts : List (κ × Rat)) (k : κ) :
    total (ts.filter fun t => !(t.2 == 0)) k = total ts k := by
  rw [total_eq_sum, total_eq_sum]
  exact sum_nonzero ts fun i => if i = k then 1 else 0

theorem total_addTerm (c d : ColumnId) (a : Rat) (ts : List (Term Rat)) :
    total (addTerm c a ts) d = total ts d + a * if c = d then 1 else 0 := by
  rw [total_eq_sum, total_eq_sum]
  exact LinearRow.sum_addTerm c a ts fun e => if e = d then 1 else 0

end Totals

theorem Objective.coefficient_eq (o : Objective Rat) (i : Nat) :
    o.coefficient i = total o.terms i :=
  List.sum_eq_foldl.symm

namespace LinearRow

variable {r : LinearRow Rat}

/-- No column has more than one entry, so the first one is all there is. -/
theorem coefficient_eq (r : LinearRow Rat) (c : ColumnId) :
    r.coefficient c = total r.entries c := by
  obtain ⟨ts, hts⟩ := r
  show ((ts.find? fun t => t.1 = c).map (·.2)).getD 0 = total ts c
  induction ts with
  | nil => rfl
  | cons t ts ih =>
    obtain ⟨hlt, hrest⟩ := List.pairwise_cons.1 hts
    by_cases h : t.1 = c
    · have hne : ∀ s ∈ ts, s.1 ≠ c := by
        intro s hs hc
        have := hlt s hs
        rw [hc, h] at this
        exact Nat.lt_irrefl _ this
      simp [h, total_eq_zero hne]
    · simp [h, ih hrest]

@[simp] theorem coefficient_empty (c : ColumnId) : (empty : LinearRow Rat).coefficient c = 0 := rfl

theorem coefficient_add (r : LinearRow Rat) (c d : ColumnId) (a : Rat) :
    (r.add c a).coefficient d = r.coefficient d + a * if c = d then 1 else 0 := by
  rw [coefficient_eq, coefficient_eq, entries_add, total_addTerm]

theorem coefficient_foldl_add (ts : List (Term Rat)) (r : LinearRow Rat) (c : ColumnId) :
    (ts.foldl (fun r t => r.add t.1 t.2) r).coefficient c = r.coefficient c + total ts c := by
  induction ts generalizing r with
  | nil => exact (add_zero _).symm
  | cons t ts ih => rw [List.foldl_cons, ih, coefficient_add, total_cons, add_assoc]

theorem coefficient_ofTerms (ts : List (Term Rat)) (c : ColumnId) :
    (ofTerms ts).coefficient c = total ts c := by
  rw [ofTerms, coefficient_foldl_add, coefficient_empty, zero_add]

theorem coefficient_ofVariables (vs : List Variable) (c : ColumnId) :
    ((empty : LinearRow Rat).ofVariables vs).coefficient c = (vs.map (·.column)).count c := by
  have hfold : (empty : LinearRow Rat).ofVariables vs =
      ((vs.map (·.column)).map fun d => (d, 1)).foldl (fun r t => r.add t.1 t.2) empty := by
    rw [ofVariables, List.foldl_map, List.foldl_map]
  rw [hfold, coefficient_foldl_add, coefficient_empty, zero_add, total_map_one]

/-- Entries that cancelled add nothing, so it does no harm that the terms leave them out. -/
theorem Within.total_offsetTerms {n : Nat} (h : r.Within n) (i : Nat) :
    total r.offsetTerms i = r.coefficient (.ofOffset i) := by
  have hoffset : ∀ t ∈ r.terms, t.1.offset = (ColumnId.ofOffset i).offset → t.1 = .ofOffset i := by
    intro t ht he
    have hpos := (h t (mem_terms.1 ht).1).1
    rw [← ColumnId.ofOffset_offset hpos.ne', he, ColumnId.offset_ofOffset]
  calc total r.offsetTerms i = total r.terms (.ofOffset i) := total_map hoffset
    _ = total r.entries (.ofOffset i) := total_nonzero r.entries _
    _ = r.coefficient (.ofOffset i) := (r.coefficient_eq _).symm

end LinearRow

end LinearProgram
