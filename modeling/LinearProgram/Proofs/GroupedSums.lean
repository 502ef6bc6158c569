import Mathlib.Algebra.BigOperators.Fin
import LinearProgram.Proofs.EngineTranslation
import LinearProgram.Proofs.RowCoefficients

/-! Sums that are taken term by term or column by column. A row keeps one number for each column and
an objective keeps its terms as they came, and both have the value of what was put in. -/

namespace LinearProgram

/-- Terms may be put together by their keys, where no key is left out that has a weight. -/
theorem sum_eq_sum_total {κ : Type} [DecidableEq κ] (ts : List (κ × Rat)) {v : κ → Rat}
    {s : Finset κ} (h : ∀ k ∉ s, v k = 0) :
    (ts.map fun t => t.2 * v t.1).sum = ∑ k ∈ s, total ts k * v k := by
  induction ts with
  | nil => simp
  | cons t ts ih =>
    -- the new term counts under its own key alone
    have hkey : ∑ k ∈ s, t.2 * (if t.1 = k then 1 else 0) * v k = t.2 * v t.1 := by
      by_cases ht : t.1 ∈ s
      · simp [ht]
      · simp [ht, h t.1 ht]
    calc ((t :: ts).map fun t => t.2 * v t.1).sum
        = t.2 * v t.1 + ∑ k ∈ s, total ts k * v k := by rw [List.map_cons, List.sum_cons, ih]
      _ = ∑ k ∈ s, total (t :: ts) k * v k := by
        simp only [total_cons, add_mul, Finset.sum_add_distrib, hkey]

/-- The value of an objective is the same whether its terms are taken as they stand or put together
by columns, where a column past the end of the values counts for nothing. -/
theorem Problem.objectiveValue_eq_sum (p : Problem Rat) (xs : List Rat) :
    p.objectiveValue xs = ∑ c : Fin xs.length, p.objective.coefficient c * xs[c] := by
  have hpast : ∀ c ∉ Finset.range xs.length, assigned xs c = 0 := by
    intro c hc
    have hle : xs.length ≤ c := by simpa using hc
    rw [assigned, List.getElem?_eq_none hle, Option.getD_none]
  calc p.objectiveValue xs
      = (p.objective.terms.map fun t => t.2 * assigned xs t.1).sum := List.sum_eq_foldl.symm
    _ = ∑ c ∈ Finset.range xs.length, total p.objective.terms c * assigned xs c :=
        sum_eq_sum_total _ hpast
    _ = ∑ c : Fin xs.length, total p.objective.terms c * assigned xs c := Finset.sum_range _
    _ = ∑ c : Fin xs.length, p.objective.coefficient c * xs[c] := by
        refine Finset.sum_congr rfl fun c _ => ?_
        rw [Objective.coefficient_eq, assigned_of_lt c.isLt]
        rfl

/-- A column that comes up twice, one that is not there and one past the end. -/
example : ({ objective.terms := [(2, 1), (0, 5), (2, -3), (7, 4)] } : Problem Rat).objectiveValue
    [1, 10, 100] = -195 := by decide +kernel

section Columns

variable {α : Type} [Scalar α] {c d : ColumnId} {a : α} {ts : List (Term α)}

theorem mem_columns_addTerm (h : d = c ∨ d ∈ ts.map (·.1)) : d ∈ (addTerm c a ts).map (·.1) := by
  induction ts with
  | nil => simpa [addTerm] using h
  | cons t ts ih =>
    obtain ⟨e, b⟩ := t
    simp only [addTerm]
    split
    · simpa using h
    · split
      · rename_i he
        subst he
        simpa using h
      · rcases h with h | h
        · exact List.mem_cons_of_mem _ (ih (.inl h))
        · rcases List.mem_cons.1 h with h | h
          · exact h ▸ List.mem_cons_self
          · exact List.mem_cons_of_mem _ (ih (.inr h))

namespace LinearRow

theorem mem_columns_ofTerms : c ∈ (ofTerms ts).entries.map (·.1) ↔ c ∈ ts.map (·.1) := by
  constructor
  · intro h
    obtain ⟨t, ht, rfl⟩ := List.mem_map.1 h
    obtain ⟨s, hs, he⟩ := mem_ofTerms ht
    exact he ▸ List.mem_map_of_mem hs
  · have hfold (r : LinearRow α) (h : c ∈ r.entries.map (·.1) ∨ c ∈ ts.map (·.1)) :
        c ∈ (ts.foldl (fun r t => r.add t.1 t.2) r).entries.map (·.1) := by
      induction ts generalizing r with
      | nil => simpa using h
      | cons t ts ih =>
        refine ih _ ?_
        rw [List.map_cons, List.mem_cons] at h
        rcases h with h | h | h
        · exact .inl (mem_columns_addTerm (.inr h))
        · exact .inl (mem_columns_addTerm (.inl h))
        · exact .inr h
    exact fun h => hfold empty (.inr h)

end LinearRow

end Columns

namespace LinearRow

theorem coefficient_of_mem {r : LinearRow Rat} {t : Term Rat} (h : t ∈ r.entries) :
    r.coefficient t.1 = t.2 := by
  obtain ⟨ts, hts⟩ := r
  rw [coefficient_eq]
  show total ts t.1 = t.2
  induction ts with
  | nil => exact absurd h List.not_mem_nil
  | cons s ts ih =>
    obtain ⟨hlt, hrest⟩ := List.pairwise_cons.1 hts
    rcases List.mem_cons.1 h with rfl | h
    · have hne : ∀ s ∈ ts, s.1 ≠ t.1 := fun s hs he => Nat.ne_of_lt (hlt s hs) (by rw [he])
      simp [total_eq_zero hne]
    · have hne : s.1 ≠ t.1 := fun he => Nat.ne_of_lt (hlt t h) (by rw [he])
      simp [hne, ih hrest h]

theorem mem_entries_iff {r : LinearRow Rat} {t : Term Rat} :
    t ∈ r.entries ↔ t.1 ∈ r.entries.map (·.1) ∧ t.2 = r.coefficient t.1 := by
  constructor
  · exact fun h => ⟨List.mem_map_of_mem h, (coefficient_of_mem h).symm⟩
  · rintro ⟨hc, ha⟩
    obtain ⟨s, hs, he⟩ := List.mem_map.1 hc
    have hsa : s.2 = t.2 := by rw [ha, ← he, coefficient_of_mem hs]
    rwa [Prod.ext he hsa] at hs

/-- A row is told by its columns and by its coefficients there. -/
theorem eq_of_coefficients {r s : LinearRow Rat}
    (hc : ∀ c, c ∈ r.entries.map (·.1) ↔ c ∈ s.entries.map (·.1))
    (ha : ∀ c, r.coefficient c = s.coefficient c) : r = s := by
  let before (s t : Term Rat) : Prop := s.1.number < t.1.number
  have : Std.Irrefl before := ⟨fun t => Nat.lt_irrefl _⟩
  have : Std.Antisymm before := ⟨fun s t h h' => absurd h' (Nat.lt_asymm h)⟩
  have hmem : ∀ t, t ∈ r.entries ↔ t ∈ s.entries := by
    intro t
    rw [mem_entries_iff, mem_entries_iff, hc, ha]
  -- both are sorted by column, so that their members decide
  have hentries : r.entries = s.entries :=
    List.Pairwise.eq_of_mem_iff (r := before) r.increasing s.increasing hmem
  cases r
  cases s
  simpa using hentries

instance : LawfulBEq (LinearRow Rat) where
  eq_of_beq {r s} h := by
    have hentries : r.entries = s.entries := beq_iff_eq.1 h
    cases r
    cases s
    simpa using hentries
  rfl {r} := beq_self_eq_true r.entries

theorem ofTerms_of_perm {us ts : List (Term Rat)} (h : us.Perm ts) : ofTerms us = ofTerms ts := by
  refine eq_of_coefficients (fun c => ?_) fun c => ?_
  · rw [mem_columns_ofTerms, mem_columns_ofTerms, (h.map _).mem_iff]
  · rw [coefficient_ofTerms, coefficient_ofTerms, total_eq_sum, total_eq_sum, (h.map _).sum_eq]

theorem mem_terms_ofTerms {ts : List (Term Rat)} {c : ColumnId} {a : Rat} :
    (c, a) ∈ (ofTerms ts).terms ↔ a = total ts c ∧ a ≠ 0 := by
  have hcoefficient := coefficient_ofTerms ts c
  rw [mem_terms, mem_entries_iff, mem_columns_ofTerms, hcoefficient, beq_eq_false_iff_ne]
  constructor
  · rintro ⟨⟨-, ha⟩, h0⟩
    exact ⟨ha, h0⟩
  · rintro ⟨ha, h0⟩
    refine ⟨⟨?_, ha⟩, h0⟩
    by_contra hc
    have hnone : ∀ t ∈ ts, t.1 ≠ c := fun t ht he => hc (List.mem_map.2 ⟨t, ht, he⟩)
    exact h0 (ha.trans (total_eq_zero hnone))

/-- A row stands for the sum of what was added to it, in any order. -/
theorem stands_for_sum (ts : List (Term Rat)) :
    let r := ofTerms ts
    (∀ c, r.coefficient c = total ts c) ∧ Increasing r.terms ∧
      (∀ c a, (c, a) ∈ r.terms ↔ a = total ts c ∧ a ≠ 0) ∧
      (∀ v : ColumnId → Rat,
        (r.terms.map fun t => t.2 * v t.1).sum = (ts.map fun t => t.2 * v t.1).sum) ∧
      ∀ us : List (Term Rat), us.Perm ts → ofTerms us = r ∧ (ofTerms us == r) = true := by
  intro r
  refine ⟨coefficient_ofTerms ts, r.increasing_terms, fun c a => mem_terms_ofTerms, fun v => ?_,
    fun us hus => ?_⟩
  · exact (sum_nonzero r.entries v).trans (sum_ofTerms ts v)
  · have heq : ofTerms us = r := ofTerms_of_perm hus
    exact ⟨heq, beq_iff_eq.2 heq⟩

theorem stands_for_sum_shuffled :
    let x : ColumnId := ⟨1⟩
    let y : ColumnId := ⟨2⟩
    let r : LinearRow Rat := ofTerms [(y, 1), (x, 3), (y, -1), (x, 1 / 2)]
    r.terms = [(x, 7 / 2)] ∧ r.coefficient y = 0 ∧
      ofTerms [(x, 1 / 2), (y, 1), (y, -1), (x, 3)] = r := by
  intro x y r
  obtain ⟨hcoefficient, -, -, -, hperm⟩ := stands_for_sum [(y, 1), (x, 3), (y, -1), (x, 1 / 2)]
  have hy : total [(y, 1), (x, 3), (y, -1), (x, 1 / 2)] y = 0 := by decide +kernel
  exact ⟨by decide +kernel, (hcoefficient y).trans hy, (hperm _ (by decide +kernel)).1⟩

end LinearRow

end LinearProgram
