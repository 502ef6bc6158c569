import LinearProgram.Engine.Program
import LinearProgram.Proofs.ExactReading
import LinearProgram.Proofs.Feasible

/-! A program and what the engine is given for it say the same of every assignment of rationals.
The expressions of the engine leave out zero coefficients and add up repeated ones, and its ranges
take the place of the bounds. -/

namespace LinearProgram

section Meaning

variable {α : Type} [Scalar α]

def Sense.compares : Sense → α → α → Bool
  | .lessEqual, a, b => Scalar.le a b
  | .equal, a, b => a == b
  | .greaterEqual, a, b => Scalar.le b a

/-- A column past the end of the values counts as zero. -/
def LinearRow.evaluate (r : LinearRow α) (values : List α) : α :=
  Scalar.sum (r.entries.map fun t => t.2 * values[t.1.offset]?.getD 0)

namespace Engine

/-- A bound that is not there keeps nothing out. -/
structure Range.Admits (r : Range α) (x : α) : Prop where
  lower : ∀ l ∈ r.lower, Scalar.le l x = true
  upper : ∀ u ∈ r.upper, Scalar.le x u = true
  integral : r.integer = true → Scalar.isIntegral x = true

instance (r : Range α) (x : α) : Decidable (r.Admits x) :=
  decidable_of_iff ((∀ l ∈ r.lower, Scalar.le l x = true) ∧ (∀ u ∈ r.upper, Scalar.le x u = true) ∧
      (r.integer = true → Scalar.isIntegral x = true))
    ⟨fun ⟨hl, hu, hi⟩ => ⟨hl, hu, hi⟩, fun h => ⟨h.lower, h.upper, h.integral⟩⟩

def Row.Holds (r : Row α) (values : List α) : Prop :=
  r.sense.compares (r.expression.evaluate values) r.bound = true

instance (r : Row α) (values : List α) : Decidable (r.Holds values) :=
  inferInstanceAs (Decidable (_ = true))

/-- One value for each variable, in its range, and every row holds. -/
structure Program.Feasible (p : Program α) (values : List α) : Prop where
  ranges : List.Forall₂ Range.Admits p.ranges values
  rows : ∀ r ∈ p.rows, r.Holds values

instance (p : Program α) (values : List α) : Decidable (p.Feasible values) :=
  decidable_of_iff (List.Forall₂ Range.Admits p.ranges values ∧ ∀ r ∈ p.rows, r.Holds values)
    ⟨fun ⟨hr, hh⟩ => ⟨hr, hh⟩, fun h => ⟨h.ranges, h.rows⟩⟩

/-- Every expression is over variables that there are. -/
def Program.Scoped (p : Program α) : Prop :=
  ∀ f ∈ p.objective :: p.rows.map Row.expression, ∀ t ∈ f.entries, t.1.offset < p.ranges.length

end Engine

/-- The terms one after the other, as they stand. -/
def Terms.sum (ts : Terms α) (values : List α) : α :=
  Scalar.sum (ts.map fun t => t.2 * values[t.1]?.getD 0)

def Constraint.Holds (c : Constraint α) (values : List α) : Prop :=
  c.sense.compares (Terms.sum c.terms values) c.bound = true

end Meaning

namespace Column

/-- The lower bound as a number. -/
def least (c : Column Extended) : Extended :=
  c.lower.getD (.infinite true)

def greatest (c : Column Extended) : Extended :=
  c.upper.getD (.infinite false)

structure Contains (c : Column Extended) (x : Extended) : Prop where
  least_le : Scalar.le c.least x = true
  le_greatest : Scalar.le x c.greatest = true
  integral : c.isInteger = true → Scalar.isIntegral x = true

end Column

/-- One value for each column, within its bounds, and every constraint holds. -/
structure Problem.Satisfied (p : Problem Extended) (values : List Extended) : Prop where
  columns : List.Forall₂ Column.Contains p.columns values
  constraints : ∀ c ∈ p.constraints, c.Holds values

open Extended

section Expressions

/-- A coefficient among the extended numbers. -/
def extend {ι : Type} (t : ι × Rat) : ι × Extended :=
  (t.1, finite t.2)

theorem addTerm_extend (c : ColumnId) (a : Rat) (ts : List (Term Rat)) :
    addTerm c (finite a) (ts.map extend) = (addTerm c a ts).map extend := by
  induction ts with
  | nil => rfl
  | cons t ts ih =>
    obtain ⟨d, b⟩ := t
    simp only [List.map_cons, extend, addTerm]
    split
    · rfl
    · split
      · rfl
      · rw [List.map_cons, ← ih]
        rfl

namespace LinearRow

theorem entries_ofTerms_extend (ts : List (Term Rat)) :
    (ofTerms (ts.map extend)).entries = (ofTerms ts).entries.map extend := by
  have hfold (r : LinearRow Extended) (s : LinearRow Rat) (h : r.entries = s.entries.map extend) :
      ((ts.map extend).foldl (fun r t => r.add t.1 t.2) r).entries =
        (ts.foldl (fun r t => r.add t.1 t.2) s).entries.map extend := by
    induction ts generalizing r s with
    | nil => exact h
    | cons t ts ih =>
      refine ih _ _ ?_
      rw [entries_add, entries_add, h]
      exact addTerm_extend t.1 t.2 s.entries
  exact hfold empty empty rfl

theorem mem_ofTerms {α : Type} [Scalar α] {ts : List (Term α)} {t : Term α}
    (h : t ∈ (ofTerms ts).entries) : ∃ s ∈ ts, s.1 = t.1 := by
  have hfold (us : List (Term α)) (r : LinearRow α)
      (hr : ∀ s ∈ r.entries, ∃ u ∈ ts, u.1 = s.1) (hu : us ⊆ ts) :
      ∀ s ∈ (us.foldl (fun r t => r.add t.1 t.2) r).entries, ∃ u ∈ ts, u.1 = s.1 := by
    induction us generalizing r with
    | nil => exact hr
    | cons u us ih =>
      obtain ⟨hu, hus⟩ := List.cons_subset.1 hu
      refine ih _ (fun s hs => ?_) hus
      rcases mem_addTerm hs with he | ⟨s', hs', he⟩
      · exact ⟨u, hu, he.symm⟩
      · exact he ▸ hr s' hs'
  exact hfold ts empty (List.forall_mem_nil _) (List.Subset.refl ts) t h

end LinearRow

/-- The values as an assignment, with zero on any other column. -/
def assigned (values : List Rat) : Assignment :=
  fun i => values[i]?.getD 0

theorem assigned_of_lt {values : List Rat} {i : Nat} (h : i < values.length) :
    assigned values i = values[i] := by
  rw [assigned, List.getElem?_eq_getElem h, Option.getD_some]

theorem getD_map_finite (values : List Rat) (i : Nat) :
    (values.map finite)[i]?.getD 0 = finite (assigned values i) := by
  rw [List.getElem?_map, assigned]
  cases values[i]? <;> rfl

theorem LinearRow.evaluate_eq {r : LinearRow Extended} {s : LinearRow Rat}
    (h : r.entries = s.entries.map extend) (values : List Rat) :
    r.evaluate (values.map finite) = finite (s.value (assigned values)) := by
  rw [evaluate, h, value, ← sum_finite, List.map_map, List.map_map]
  simp only [Function.comp_def, extend, getD_map_finite, finite_mul_finite]

namespace Terms

theorem sum_extend (ts : Terms Rat) (values : List Rat) :
    Terms.sum (ts.map extend) (values.map finite) = finite (termsValue ts (assigned values)) := by
  rw [Terms.sum, termsValue, ← sum_finite, List.map_map, List.map_map]
  simp only [Function.comp_def, extend, getD_map_finite, finite_mul_finite]

/-- Leaving out zeros and adding up repetitions changes no value. -/
theorem value_expression (ts : Terms Rat) (v : Assignment) :
    (expression ts).value v = termsValue ts v := by
  rw [expression, LinearRow.value_ofTerms, List.map_map]
  exact sum_nonzero ts v

theorem entries_expression_extend (ts : Terms Rat) :
    (expression (ts.map extend)).entries = (expression ts).entries.map extend := by
  rw [expression, expression, ← LinearRow.entries_ofTerms_extend, List.filter_map, List.map_map,
    List.map_map]
  rfl

theorem exists_extend {n : Nat} {ts : Terms Extended} (h : Terms.Proper n ts) :
    ∃ us : Terms Rat, ts = us.map extend := by
  induction ts with
  | nil => exact ⟨[], rfl⟩
  | cons t ts ih =>
    obtain ⟨i, a⟩ := t
    obtain ⟨⟨-, ha⟩, hts⟩ := List.forall_mem_cons.1 h
    obtain ⟨q, rfl⟩ := exists_of_isFinite ha
    obtain ⟨us, rfl⟩ := ih hts
    exact ⟨(i, q) :: us, rfl⟩

/-- The expression of the engine has the value of the terms, as they are listed. -/
theorem evaluate_expression {n : Nat} {ts : Terms Extended} (h : Terms.Proper n ts)
    (values : List Rat) :
    (expression ts).evaluate (values.map finite) = Terms.sum ts (values.map finite) := by
  obtain ⟨us, rfl⟩ := exists_extend h
  rw [LinearRow.evaluate_eq (entries_expression_extend us), value_expression, sum_extend]

theorem Proper.offset_lt {α : Type} [Scalar α] {n : Nat} {ts : Terms α} (h : Terms.Proper n ts)
    {t : Term α} (ht : t ∈ (expression ts).entries) : t.1.offset < n := by
  obtain ⟨s, hs, he⟩ := LinearRow.mem_ofTerms ht
  obtain ⟨u, hu, rfl⟩ := List.mem_map.1 hs
  rw [← he]
  exact (h u (List.mem_of_mem_filter hu)).1

end Terms

end Expressions

theorem forall₂_congr_of_mem {γ δ : Type} {R S : γ → δ → Prop} {l : List γ}
    (h : ∀ a ∈ l, ∀ b, R a b ↔ S a b) (u : List δ) : List.Forall₂ R l u ↔ List.Forall₂ S l u := by
  induction l generalizing u with
  | nil => rw [List.forall₂_nil_left_iff, List.forall₂_nil_left_iff]
  | cons a l ih =>
    obtain ⟨ha, hl⟩ := List.forall_mem_cons.1 h
    cases u with
    | nil => simp
    | cons b u => rw [List.forall₂_cons, List.forall₂_cons, ha b, ih hl u]

/-- With bounds of its own, a binary column has none added. -/
theorem Column.admits_range_iff {c : Column Extended}
    (hb : c.isBinary = true → c.lower = some 0 ∧ c.upper = some 1) (q : Rat) :
    c.range.Admits (finite q) ↔ c.Contains (finite q) := by
  have hlower : (∀ l ∈ c.range.lower, Scalar.le l (finite q) = true) ↔
      Scalar.le c.least (finite q) = true := by
    cases hl : c.lower with
    | some l => simp [range, least, hl]
    | none =>
      have hnone : c.isBinary = false := by simpa [hl] using hb
      simp [range, least, hl, hnone, infinite_le_finite]
  have hupper : (∀ u ∈ c.range.upper, Scalar.le (finite q) u = true) ↔
      Scalar.le (finite q) c.greatest = true := by
    cases hu : c.upper with
    | some u => simp [range, greatest, hu]
    | none =>
      have hnone : c.isBinary = false := by simpa [hu] using hb
      simp [range, greatest, hu, hnone, finite_le_infinite]
  constructor
  · intro h
    exact ⟨hlower.1 h.lower, hupper.1 h.upper, h.integral⟩
  · intro h
    exact ⟨hlower.2 h.least_le, hupper.2 h.le_greatest, h.integral⟩

namespace Problem

theorem Valid.scoped {α : Type} [Scalar α] {p : Problem α} (h : p.Valid) : p.program.Scoped := by
  intro f hf t ht
  have hlength : p.program.ranges.length = p.columns.length := List.length_map ..
  rw [hlength]
  rcases List.mem_cons.1 hf with rfl | hf
  · exact h.objective.offset_lt ht
  · obtain ⟨r, hr, rfl⟩ := List.mem_map.1 hf
    obtain ⟨c, hc, rfl⟩ := List.mem_map.1 hr
    exact (h.rows c hc).1.offset_lt ht

theorem Valid.feasible_iff {p : Problem Extended} (h : p.Valid)
    (hb : ∀ c ∈ p.columns, c.isBinary = true → c.lower = some 0 ∧ c.upper = some 1)
    (values : List Rat) :
    p.program.Feasible (values.map finite) ↔ p.Satisfied (values.map finite) := by
  have hcolumns : List.Forall₂ Engine.Range.Admits p.program.ranges (values.map finite) ↔
      List.Forall₂ Column.Contains p.columns (values.map finite) := by
    rw [program, List.forall₂_map_left_iff, List.forall₂_map_right_iff,
      List.forall₂_map_right_iff]
    exact forall₂_congr_of_mem (fun c hc q => Column.admits_range_iff (hb c hc) q) values
  have hrow (c : Constraint Extended) (hc : c ∈ p.constraints) :
      Engine.Row.Holds ⟨Terms.expression c.terms, c.sense, c.bound⟩ (values.map finite) ↔
        c.Holds (values.map finite) := by
    rw [Engine.Row.Holds, Constraint.Holds, Terms.evaluate_expression (h.rows c hc).1]
  constructor
  · intro hf
    exact ⟨hcolumns.1 hf.ranges,
      fun c hc => (hrow c hc).1 (hf.rows _ (List.mem_map_of_mem hc))⟩
  · intro hs
    refine ⟨hcolumns.2 hs.columns, fun r hr => ?_⟩
    obtain ⟨c, hc, rfl⟩ := List.mem_map.1 hr
    exact (hrow c hc).2 (hs.constraints c hc)

/-- The program that the engine is given asks of any rational values what the problem asks, gives
them the same objective value and goes in the same direction. -/
theorem program_means {p : Problem Extended} (hv : p.validate = .ok ())
    (hb : ∀ c ∈ p.columns, c.isBinary = true → c.lower = some 0 ∧ c.upper = some 1)
    (values : List Rat) :
    (p.program.Feasible (values.map finite) ↔ p.Satisfied (values.map finite)) ∧
      p.program.objective.evaluate (values.map finite) = p.objectiveValue (values.map finite) ∧
      p.program.direction = p.objective.direction ∧ p.program.Scoped := by
  have h : p.Valid := validate_eq_ok_iff_valid.1 hv
  exact ⟨h.feasible_iff hb values, Terms.evaluate_expression h.objective values, rfl, h.scoped⟩

/-- Repeated columns, zero coefficients, a row without terms, bounds that are infinite and bounds
that are not there. -/
def mixed : Problem Float where
  objective := ⟨.maximize, [(0, 1), (1, 3), (0, 2), (3, 0)]⟩
  constraints :=
    [⟨.lessEqual, [(0, 1), (1, 2), (0, -1)], 5, ""⟩, ⟨.equal, [], 0, ""⟩,
      ⟨.greaterEqual, [(2, 0), (3, 0.5)], -1, ""⟩]
  columns :=
    [⟨.continuous, some (-Binary64.infinity), some 3.5, "x"⟩,
      ⟨.integer, none, some Binary64.infinity, "y"⟩, ⟨.binary, some 0, some 1, "z"⟩,
      ⟨.continuous, none, none, "w"⟩]

theorem program_means_mixed :
    mixed.exact.validate = .ok () ∧ mixed.exact.Satisfied ([1 / 2, 2, 1, -2].map finite) ∧
      ¬ mixed.exact.Satisfied ([1 / 2, 3, 1, -2].map finite) ∧
      mixed.exact.program.objective.evaluate ([1 / 2, 2, 1, -2].map finite) = finite (15 / 2) := by
  have hv : mixed.exact.validate = .ok () :=
    validate_exact (validate_eq_ok_iff.2 (List.isEmpty_iff.1 (by decide +kernel)))
  have hb : ∀ c ∈ mixed.exact.columns,
      c.isBinary = true → c.lower = some 0 ∧ c.upper = some 1 := by decide +kernel
  have hfeasible : mixed.exact.program.Feasible ([1 / 2, 2, 1, -2].map finite) := by
    decide +kernel
  have hinfeasible : ¬ mixed.exact.program.Feasible ([1 / 2, 3, 1, -2].map finite) := by
    decide +kernel
  have hobjective :
      mixed.exact.objectiveValue ([1 / 2, 2, 1, -2].map finite) = finite (15 / 2) := by
    decide +kernel
  obtain ⟨hyes, hvalue, -, -⟩ := program_means hv hb [1 / 2, 2, 1, -2]
  obtain ⟨hno, -⟩ := program_means hv hb [1 / 2, 3, 1, -2]
  exact ⟨hv, hyes.1 hfeasible, fun h => hinfeasible (hno.2 h), hvalue.trans hobjective⟩

end Problem

end LinearProgram
