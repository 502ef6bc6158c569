import Mathlib.Algebra.Order.Ring.Rat
import Mathlib.Algebra.BigOperators.Group.List.Basic
import Mathlib.Tactic.Linarith
import Mathlib.Tactic.Ring
import LinearProgram.Proofs.BuildingCalls

/-! What a program over exact rationals asks of the values of its columns. -/

namespace LinearProgram

/-- A value for every column, by the place of the column. -/
abbrev Assignment := Nat → Rat

def Sense.Holds : Sense → Rat → Rat → Prop
  | .lessEqual, a, b => a ≤ b
  | .equal, a, b => a = b
  | .greaterEqual, a, b => b ≤ a

theorem Sense.holds_sub_zero {s : Sense} {a b : Rat} : s.Holds (a - b) 0 ↔ s.Holds a b := by
  cases s
  · exact sub_nonpos
  · exact sub_eq_zero
  · exact sub_nonneg

theorem exists_int_iff {x : Rat} : (∃ n : Int, x = n) ↔ x.den = 1 :=
  ⟨by rintro ⟨n, rfl⟩; rfl, fun h => ⟨x.num, (Rat.coe_int_num_of_den_eq_one h).symm⟩⟩

def termsValue (ts : Terms Rat) (v : Assignment) : Rat :=
  (ts.map fun t => t.2 * v t.1).sum

theorem sum_nonzero {ι : Type} (ts : List (ι × Rat)) (v : ι → Rat) :
    ((ts.filter fun t => !(t.2 == 0)).map fun t => t.2 * v t.1).sum =
      (ts.map fun t => t.2 * v t.1).sum := by
  induction ts with
  | nil => rfl
  | cons t ts ih =>
    by_cases h : t.2 = 0
    · rw [List.filter_cons_of_neg (by simp [h]), ih]
      simp [h]
    · rw [List.filter_cons_of_pos (by simpa using h), List.map_cons, List.sum_cons, ih,
        List.map_cons, List.sum_cons]

namespace LinearRow

def value (r : LinearRow Rat) (v : Assignment) : Rat :=
  (r.entries.map fun t => t.2 * v t.1.offset).sum

theorem value_empty (v : Assignment) : (empty : LinearRow Rat).value v = 0 :=
  rfl

theorem sum_addTerm (c : ColumnId) (a : Rat) (ts : List (Term Rat)) (v : ColumnId → Rat) :
    ((addTerm c a ts).map fun t => t.2 * v t.1).sum =
      (ts.map fun t => t.2 * v t.1).sum + a * v c := by
  induction ts with
  | nil => simp [addTerm]
  | cons t ts ih =>
    obtain ⟨d, b⟩ := t
    simp only [addTerm]
    split
    · simp only [List.map_cons, List.sum_cons]
      ring
    · split
      · rename_i h
        subst h
        simp only [List.map_cons, List.sum_cons]
        ring
      · simp only [List.map_cons, List.sum_cons, ih]
        ring

/-- A coefficient that was added counts, also where the column was there before. -/
theorem value_add (r : LinearRow Rat) (c : ColumnId) (a : Rat) (v : Assignment) :
    (r.add c a).value v = r.value v + a * v c.offset :=
  sum_addTerm c a r.entries fun c => v c.offset

theorem sum_ofTerms (ts : List (Term Rat)) (v : ColumnId → Rat) :
    ((ofTerms ts).entries.map fun t => t.2 * v t.1).sum = (ts.map fun t => t.2 * v t.1).sum := by
  have hfold (r : LinearRow Rat) :
      ((ts.foldl (fun r t => r.add t.1 t.2) r).entries.map fun t => t.2 * v t.1).sum =
        (r.entries.map fun t => t.2 * v t.1).sum + (ts.map fun t => t.2 * v t.1).sum := by
    induction ts generalizing r with
    | nil => exact (add_zero _).symm
    | cons t ts ih =>
      rw [List.foldl_cons, ih, entries_add, sum_addTerm, List.map_cons, List.sum_cons, add_assoc]
  rw [ofTerms, hfold, entries_empty, List.map_nil, List.sum_nil, zero_add]

theorem value_ofTerms (ts : List (Term Rat)) (v : Assignment) :
    (ofTerms ts).value v = (ts.map fun t => t.2 * v t.1.offset).sum :=
  sum_ofTerms ts fun c => v c.offset

theorem termsValue_offsetTerms (r : LinearRow Rat) (v : Assignment) :
    termsValue r.offsetTerms v = r.value v := by
  rw [termsValue, offsetTerms, terms, List.map_map]
  exact sum_nonzero r.entries fun c => v c.offset

end LinearRow

def Constraint.Satisfied (c : Constraint Rat) (v : Assignment) : Prop :=
  c.sense.Holds (termsValue c.terms v) c.bound

structure Column.Allows (c : Column Rat) (x : Rat) : Prop where
  lower : ∀ l ∈ c.lower, l ≤ x
  upper : ∀ u ∈ c.upper, x ≤ u
  integral : c.isInteger = true → ∃ n : Int, x = n

structure Problem.Feasible (p : Problem Rat) (v : Assignment) : Prop where
  columns : ∀ (i : Nat) (c : Column Rat), p.columns[i]? = some c → c.Allows (v i)
  rows : ∀ c ∈ p.constraints, c.Satisfied v

namespace Domain

def Contains (d : Domain) (x : Rat) : Prop :=
  (d.kind = .integer → ∃ n : Int, x = n) ∧
    match d.range with
    | .unconstrained => True
    | .nonNegative => 0 ≤ x
    | .binary => x = 0 ∨ x = 1

theorem integral_between_zero_one {x : Rat} :
    (0 ≤ x ∧ x ≤ 1 ∧ ∃ n : Int, x = n) ↔ x = 0 ∨ x = 1 := by
  constructor
  · rintro ⟨h0, h1, n, rfl⟩
    have h0' : 0 ≤ n := by exact_mod_cast h0
    have h1' : n ≤ 1 := by exact_mod_cast h1
    obtain rfl | rfl : n = 0 ∨ n = 1 := by omega
    · exact .inl (by simp)
    · exact .inr (by simp)
  · rintro (rfl | rfl)
    · exact ⟨le_refl _, zero_le_one, 0, by simp⟩
    · exact ⟨zero_le_one, le_refl _, 1, by simp⟩

theorem isInteger_column {d : Domain} (hd : d.isSupported = true) (name : String) :
    (d.column name : Column Rat).isInteger = true ↔ d.kind = .integer := by
  obtain ⟨kind, range, constant⟩ := d
  cases kind <;> cases range <;>
    simp_all [column, Column.isInteger, isInteger, isSupported, isBinary]

/-- The bounds and the type of a column keep it to the domain it was made for. -/
theorem column_allows {d : Domain} (hd : d.isSupported = true) (name : String) {x : Rat} :
    (d.column name).Allows x ↔ d.Contains x := by
  have hi := isInteger_column hd name
  obtain ⟨kind, range, constant⟩ := d
  cases range with
  | unconstrained =>
    exact ⟨fun h => ⟨fun hk => h.integral (hi.2 hk), trivial⟩,
      fun h => ⟨nofun, nofun, fun hc => h.1 (hi.1 hc)⟩⟩
  | nonNegative =>
    refine ⟨fun h => ⟨fun hk => h.integral (hi.2 hk), h.lower 0 rfl⟩,
      fun h => ⟨?_, nofun, fun hc => h.1 (hi.1 hc)⟩⟩
    rintro _ ⟨⟩
    exact h.2
  | binary =>
    obtain rfl : kind = .integer := hi.1 rfl
    constructor
    · intro h
      have hn := h.integral rfl
      exact ⟨fun _ => hn, integral_between_zero_one.1 ⟨h.lower 0 rfl, h.upper 1 rfl, hn⟩⟩
    · rintro ⟨-, h⟩
      obtain ⟨h0, h1, hn⟩ := integral_between_zero_one.2 h
      refine ⟨?_, ?_, fun _ => hn⟩
      · rintro _ ⟨⟩
        exact h0
      · rintro _ ⟨⟩
        exact h1

end Domain

end LinearProgram
