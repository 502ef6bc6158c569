import LinearProgram.Proofs.MpsRoundTrip
import LinearProgram.Proofs.NumberOrder

/-! What a file keeps of a program whose numbers are all ordinary: everything but the order and
the repetitions of terms, the names of constraints, and the limits of the solver. -/

namespace LinearProgram.Mps

variable {p : Problem Float}

/-- Finite, and too small to stand for infinity. -/
def Ordinary (x : Float) : Prop :=
  Binary64.isFinite x = true ∧ -infinityThreshold < x ∧ x < infinityThreshold

instance (x : Float) : Decidable (Ordinary x) :=
  inferInstanceAs (Decidable (_ ∧ _))

theorem Ordinary.clamp_eq {x : Float} (h : Ordinary x) : clamp x = x := by
  rw [clamp, if_neg (Binary64.not_le_of_lt h.2.2), if_neg (Binary64.not_le_of_lt h.2.1)]

theorem Ordinary.finite?_eq {x : Float} (h : Ordinary x) : finite? (clamp x) = some x := by
  rw [h.clamp_eq, finite?, if_pos h.1]

theorem Ordinary.beq_self {x : Float} (h : Ordinary x) : (x == x) = true :=
  Binary64.beq_self h.1

/-- What the terms on one column add up to. -/
def columnSum (ts : Terms Float) (column : Nat) : Float :=
  ((ts.filter fun t => t.1 = column).map (·.2)).foldl (· + ·) 0

/-- One term for each column that does not cancel, in the order of the columns. -/
def normalTerms (columns : Nat) (ts : Terms Float) : Terms Float :=
  ((List.range columns).map fun j => (j, columnSum ts j)).filter fun t => !(t.2 == 0)

def normalForm (p : Problem Float) : Problem Float where
  name := writtenName p
  objective :=
    { direction := p.objective.direction
      terms := normalTerms p.columns.length p.objective.terms }
  constraints := p.constraints.zipIdx.map fun (c, i) =>
    { sense := c.sense
      terms := normalTerms p.columns.length c.terms
      bound := c.bound
      name := "R" ++ Nat.repr (i + 1) }
  columns := p.columns

/-- The programs that a file can hold. -/
structure Portable (p : Problem Float) : Prop where
  nodup_names : (p.columns.map (·.name)).Nodup
  isWord_name : ∀ c ∈ p.columns, IsWord c.name
  no_comment : ∀ c ∈ p.columns, c.name.toList.head? ≠ some '*'
  objective_columns : ∀ t ∈ p.objective.terms, t.1 < p.columns.length
  constraint_columns : ∀ c ∈ p.constraints, ∀ t ∈ c.terms, t.1 < p.columns.length
  binary_bounds : ∀ c ∈ p.columns, c.type = .binary →
    (c.lower == some 0) = true ∧ (c.upper == some 1) = true
  ordinary_bounds : ∀ c ∈ p.columns, c.type ≠ .binary →
    (∀ l ∈ c.lower, Ordinary l) ∧ ∀ u ∈ c.upper, Ordinary u
  ordinary_rightHandSides : ∀ c ∈ p.constraints, Ordinary c.bound
  ordinary_objective : ∀ j < p.columns.length, Ordinary (columnSum p.objective.terms j)
  ordinary_constraints : ∀ c ∈ p.constraints, ∀ j < p.columns.length,
    Ordinary (columnSum c.terms j)

theorem Portable.named (h : Portable p) : Named p :=
  ⟨h.nodup_names, h.isWord_name, h.no_comment⟩

theorem isWritableName_of_isWord {name : String} (h : IsWord name) : isWritableName name = true := by
  have hne : name ≠ "" := fun he => h.1 (by rw [he]; rfl)
  have hblank : name.toList.any Text.isBlank = false :=
    List.any_eq_false.2 fun c hc => by simp [h.2 c hc]
  rw [isWritableName, hblank]
  simpa using hne

/-- Nothing but a name or a term on a missing column keeps a program from being written. -/
theorem obstacle?_eq_none (hnames : ∀ c ∈ p.columns, IsWord c.name)
    (hobjective : ∀ t ∈ p.objective.terms, t.1 < p.columns.length)
    (hconstraints : ∀ c ∈ p.constraints, ∀ t ∈ c.terms, t.1 < p.columns.length) :
    obstacle? p = none := by
  have hnone : p.columns.find? (fun c => !isWritableName c.name) = none := by
    refine List.find?_eq_none.2 fun c hc => ?_
    simp [isWritableName_of_isWord (hnames c hc)]
  rw [obstacle?, hnone]
  refine List.findSome?_eq_none_iff.2 fun row hrow => ?_
  have hmem : row.1 = p.objective.terms ∨ ∃ c ∈ p.constraints, c.terms = row.1 := by
    have := List.fst_mem_of_mem_zipIdx hrow
    simpa using this
  have hfind : row.1.find? (fun t => p.columns.length ≤ t.1) = none := by
    refine List.find?_eq_none.2 fun t ht => ?_
    rw [decide_eq_true_eq, Nat.not_le]
    rcases hmem with he | ⟨c, hc, he⟩
    · exact hobjective t (he ▸ ht)
    · exact hconstraints c hc t (he ▸ ht)
  simp only [hfind, Option.map_none]

theorem write_of_obstacle?_eq_none (h : obstacle? p = none) :
    write p = .ok (String.join ((allLines p).map (· ++ "\n"))) := by
  rw [write, h]

theorem share_eq (ts : Terms Float) (j : Nat) :
    share ts j = if clamp (columnSum ts j) == 0 then [] else [(j, clamp (columnSum ts j))] := by
  rw [columnSum, List.foldl_map]
  cases hf : ts.filter fun t => t.1 = j with
  | nil =>
    rw [share_of_nil hf, List.foldl_nil, clamp_zero, if_pos (by decide +kernel)]
  | cons u us => rw [share_of_cons hf]

theorem gathered_eq {ts : Terms Float} {n : Nat} (h : ∀ j < n, Ordinary (columnSum ts j)) :
    gathered ts n = normalTerms n ts := by
  induction n with
  | zero => rfl
  | succ n ih =>
    have hlast : share ts n = [(n, columnSum ts n)].filter fun t => !(t.2 == 0) := by
      rw [share_eq, (h n (Nat.lt_succ_self n)).clamp_eq]
      cases hz : columnSum ts n == 0 <;> simp [hz]
    rw [gathered_succ, ih fun j hj => h j (Nat.lt_succ_of_lt hj), hlast, normalTerms, normalTerms,
      List.range_succ, List.map_append, List.filter_append]
    rfl

theorem beq_map {γ δ : Type} [BEq δ] {f g : γ → δ} {l : List γ} :
    (l.map f == l.map g) = true ↔ ∀ a ∈ l, (f a == g a) = true := by
  induction l with
  | nil => simp
  | cons a l ih =>
    rw [List.map_cons, List.map_cons, List.cons_beq_cons, Bool.and_eq_true, ih,
      List.forall_mem_cons]

theorem map_beq {γ : Type} [BEq γ] {f : γ → γ} {l : List γ} :
    (l.map f == l) = true ↔ ∀ a ∈ l, (f a == a) = true := by
  have hmap := beq_map (f := f) (g := id) (l := l)
  rwa [List.map_id] at hmap

theorem beq_of_forall {γ : Type} [BEq γ] {l : List γ} (h : ∀ a ∈ l, (a == a) = true) :
    (l == l) = true := by
  have hmap := map_beq (f := id) (l := l) |>.2 h
  rwa [List.map_id] at hmap

theorem beq_normalTerms {ts : Terms Float} {n : Nat} (h : ∀ j < n, Ordinary (columnSum ts j)) :
    (normalTerms n ts == normalTerms n ts) = true := by
  refine beq_of_forall fun t ht => ?_
  obtain ⟨j, hj, rfl⟩ := List.mem_map.1 (List.mem_filter.1 ht).1
  show (j == j && columnSum ts j == columnSum ts j) = true
  rw [(h j (List.mem_range.1 hj)).beq_self, BEq.rfl]
  rfl

theorem type_declared {c : Column Float} (hc : c.type ≠ .binary) : (declared c).type = c.type := by
  unfold declared Column.isInteger
  cases ht : c.type with
  | continuous => rfl
  | integer => rfl
  | binary => exact absurd ht hc

theorem bounds_declared (c : Column Float) :
    (declared c).lower = some 0 ∧ (declared c).upper = none := by
  unfold declared
  split <;> exact ⟨rfl, rfl⟩

theorem rereadColumn_binary {c : Column Float} (hb : c.isBinary = true) :
    rereadColumn c = .binary c.name := by
  rw [rereadColumn, if_pos hb]

theorem beq_column (c d : Column Float) : (d == c) = true ↔
    d.type = c.type ∧ (d.lower == c.lower) = true ∧ (d.upper == c.upper) = true ∧
      d.name = c.name := by
  have hfields : (d == c) =
      (d.type == c.type && (d.lower == c.lower && (d.upper == c.upper && d.name == c.name))) := rfl
  simp [hfields]

/-- A column that is not binary is read as it was written, if its bounds are ordinary. -/
theorem beq_rereadColumn {c : Column Float} (hb : c.type ≠ .binary)
    (hl : ∀ l ∈ c.lower, Ordinary l) (hu : ∀ u ∈ c.upper, Ordinary u) :
    (rereadColumn c == c) = true := by
  have htype : (declared c).type = c.type := type_declared hb
  have hname : (declared c).name = c.name := name_declared c
  rw [rereadColumn, if_neg (by simpa [Column.isBinary] using hb), beq_column]
  cases hcl : c.lower with
  | none =>
    cases hcu : c.upper with
    | none => exact ⟨htype, rfl, rfl, hname⟩
    | some u =>
      have hou := hu u hcu
      dsimp only
      rw [hou.finite?_eq]
      exact ⟨htype, rfl, hou.beq_self, hname⟩
  | some l =>
    have hol := hl l hcl
    cases hcu : c.upper with
    | none =>
      dsimp only
      rw [hol.finite?_eq, (bounds_declared c).2]
      exact ⟨htype, hol.beq_self, rfl, hname⟩
    | some u =>
      have hou := hu u hcu
      dsimp only
      by_cases hlu : (l == u) = true
      · rw [if_pos hlu, hol.clamp_eq]
        exact ⟨htype, hol.beq_self, hlu, hname⟩
      · rw [if_neg hlu, hol.finite?_eq, hou.finite?_eq]
        exact ⟨htype, hol.beq_self, hou.beq_self, hname⟩

/-- A binary column is read with the bounds zero and one. -/
theorem beq_rereadColumn_binary {c : Column Float} (hb : c.type = .binary) :
    (rereadColumn c == c) = true ↔ (c.lower == some 0) = true ∧ (c.upper == some 1) = true := by
  have hcomm (a : Float) (x : Option Float) : (some a == x) = (x == some a) := by
    cases x with
    | none => rfl
    | some y => exact (BEq.comm : (a == y) = (y == a))
  rw [rereadColumn_binary (by simp [Column.isBinary, hb]), beq_column, ← hcomm, ← hcomm, hb]
  exact ⟨fun h => ⟨h.2.1, h.2.2.1⟩, fun h => ⟨rfl, h.1, h.2, rfl⟩⟩

theorem Portable.beq_rereadColumn (h : Portable p) {c : Column Float} (hc : c ∈ p.columns) :
    (rereadColumn c == c) = true := by
  by_cases hb : c.type = .binary
  · exact (beq_rereadColumn_binary hb).2 (h.binary_bounds c hc hb)
  · obtain ⟨hl, hu⟩ := h.ordinary_bounds c hc hb
    exact Mps.beq_rereadColumn hb hl hu

theorem beq_rereadBound {c : Constraint Float} (h : Ordinary c.bound) :
    (rereadBound c == c.bound) = true := by
  unfold rereadBound
  by_cases hz : (c.bound == 0) = true
  · rw [if_pos hz]
    exact BEq.symm hz
  · rw [if_neg hz, h.clamp_eq]
    exact h.beq_self

theorem beq_constraints (h : Portable p) :
    ((reread p).constraints == (normalForm p).constraints) = true := by
  refine beq_map.2 fun (c, i) hci => ?_
  have hc : c ∈ p.constraints := List.fst_mem_of_mem_zipIdx hci
  have hsums := h.ordinary_constraints c hc
  have hname : rowName (i + 1) = "R" ++ Nat.repr (i + 1) := if_neg (Nat.succ_ne_zero i)
  show (c.sense == c.sense && (gathered c.terms p.columns.length ==
    normalTerms p.columns.length c.terms && (rereadBound c == c.bound &&
      rowName (i + 1) == "R" ++ Nat.repr (i + 1)))) = true
  rw [gathered_eq hsums, beq_normalTerms hsums,
    beq_rereadBound (h.ordinary_rightHandSides c hc), hname, BEq.rfl, BEq.rfl]
  rfl

theorem beq_normalForm (h : Portable p) : (reread p == normalForm p) = true := by
  have hcolumns : (p.columns.map rereadColumn == p.columns) = true :=
    map_beq.2 fun c hc => h.beq_rereadColumn hc
  have hobjective : ((reread p).objective == (normalForm p).objective) = true := by
    show (p.objective.direction == p.objective.direction &&
      gathered p.objective.terms p.columns.length ==
        normalTerms p.columns.length p.objective.terms) = true
    rw [gathered_eq h.ordinary_objective, beq_normalTerms h.ordinary_objective, BEq.rfl]
    rfl
  show (writtenName p == writtenName p && ((reread p).objective == (normalForm p).objective &&
    ((reread p).constraints == (normalForm p).constraints &&
      (p.columns.map rereadColumn == p.columns && ({} : Config Float) == {})))) = true
  rw [hobjective, beq_constraints h, hcolumns, BEq.rfl]
  rfl

/-- A portable program is written, and the text is read as the normal form of the program. -/
theorem read_write_normalForm (h : Portable p) :
    ∃ text q, write p = .ok text ∧ read text = .ok q ∧ (q == normalForm p) = true := by
  have hw := write_of_obstacle?_eq_none
    (obstacle?_eq_none h.isWord_name h.objective_columns h.constraint_columns)
  exact ⟨_, reread p, hw, read_write h.named hw, beq_normalForm h⟩

/-- A column of each kind, one of them named twice in a row. -/
def blend : Problem Float where
  name := "a blend"
  objective := { direction := .maximize, terms := [(0, 1), (1, 1)] }
  constraints := [{ sense := .lessEqual, terms := [(2, 1), (0, 1), (2, 1)], bound := 1 }]
  columns := [.continuous "x", ⟨.integer, none, some 1, "n"⟩, .binary "b"]

theorem read_write_normalForm_blend :
    Portable blend ∧
      ∃ text q, write blend = .ok text ∧ read text = .ok q ∧ (q == normalForm blend) = true := by
  have hp : Portable blend :=
    { nodup_names := by decide
      isWord_name := by decide +kernel
      no_comment := by decide
      objective_columns := by decide
      constraint_columns := by decide
      binary_bounds := by decide +kernel
      ordinary_bounds := by decide +kernel
      ordinary_rightHandSides := by decide +kernel
      ordinary_objective := by decide +kernel
      ordinary_constraints := by decide +kernel }
  exact ⟨hp, read_write_normalForm hp⟩

end LinearProgram.Mps
