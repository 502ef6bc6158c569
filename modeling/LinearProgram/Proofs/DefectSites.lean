import LinearProgram.Backend.Limits
import LinearProgram.Proofs.NumberLine
import LinearProgram.Proofs.ValidPrograms

/-! The places of a program where something can be wrong. The defects that are found, each with its
place, are just those that there are, and they come in the order of the program. -/

namespace LinearProgram

namespace Column

/-- The lower bound as a number. -/
def lowest (c : Column Float) : Float :=
  c.lower.getD (-Binary64.infinity)

def highest (c : Column Float) : Float :=
  c.upper.getD Binary64.infinity

/-- Neither bound is NaN, and they are in order. -/
structure Ordered (c : Column Float) : Prop where
  lowest_isNumber : Binary64.isNaN c.lowest = false
  highest_isNumber : Binary64.isNaN c.highest = false
  lowest_le_highest : c.lowest ≤ c.highest

end Column

section Line

open Binary64

theorem Binary64.not_lt_iff {x y : Float} (hx : isNaN x = false) (hy : isNaN y = false) :
    ¬ y < x ↔ x ≤ y := by
  rw [lt_iff hy hx, le_iff hx hy, not_lt]

theorem Binary64.place_minusInfinity : place (-infinity) = ⊥ :=
  place_of_isNegative (by decide +kernel) (by decide +kernel)

theorem Binary64.place_infinity : place infinity = ⊤ :=
  place_of_not_isNegative (by decide +kernel) (by decide +kernel)

theorem Binary64.minusInfinity_le {x : Float} (hx : isNaN x = false) : -infinity ≤ x := by
  rw [le_iff (by decide +kernel) hx, place_minusInfinity]
  exact bot_le

theorem Binary64.le_infinity {x : Float} (hx : isNaN x = false) : x ≤ infinity := by
  rw [le_iff hx (by decide +kernel), place_infinity]
  exact le_top

theorem Binary64.eq_minusInfinity_of_beq {x : Float} (h : (x == -infinity) = true) :
    x = -infinity :=
  eq_of_beq_infinite (by decide +kernel) (by decide +kernel) h

theorem Binary64.eq_infinity_of_beq {x : Float} (h : (x == infinity) = true) : x = infinity :=
  eq_of_beq_infinite (by decide +kernel) (by decide +kernel) h

theorem Column.lowest_setBounds (c : Column Float) (l u : Float) :
    (c.setBounds l u).lowest = l := by
  show (lowerLimit? l).getD (-infinity) = l
  unfold lowerLimit?
  split
  · exact (eq_minusInfinity_of_beq ‹_›).symm
  · rfl

theorem Column.highest_setBounds (c : Column Float) (l u : Float) :
    (c.setBounds l u).highest = u := by
  show (upperLimit? u).getD infinity = u
  unfold upperLimit?
  split
  · exact (eq_infinity_of_beq ‹_›).symm
  · rfl

theorem lowerText_lowerLimit? (x : Float) : lowerText (lowerLimit? x) = Scalar.text x := by
  unfold lowerLimit?
  split
  · rename_i hx
    rw [eq_minusInfinity_of_beq hx]
    decide +kernel
  · rfl

theorem upperText_upperLimit? (x : Float) : upperText (upperLimit? x) = Scalar.text x := by
  unfold upperLimit?
  split
  · rename_i hx
    rw [eq_infinity_of_beq hx]
    decide +kernel
  · rfl

theorem Column.ordered_iff {c : Column Float} :
    c.Ordered ↔ isNaN c.lowest = false ∧ isNaN c.highest = false ∧ c.lowest ≤ c.highest :=
  ⟨fun h => ⟨h.1, h.2, h.3⟩, fun h => ⟨h.1, h.2.1, h.2.2⟩⟩

/-- A bound that is not there is never on the wrong side. -/
theorem Column.boundsConsistent_iff_ordered (c : Column Float) :
    boundsConsistent c.lower c.upper = true ↔ c.Ordered := by
  have hminus : isNaN (-infinity) = false := by decide +kernel
  have hplus : isNaN infinity = false := by decide +kernel
  rw [ordered_iff, lowest, highest]
  cases c.lower with
  | none =>
    cases c.upper with
    | none => exact iff_of_true rfl ⟨hminus, hplus, minusInfinity_le hplus⟩
    | some u =>
      show (!isNaN u) = true ↔ isNaN (-infinity) = false ∧ isNaN u = false ∧ -infinity ≤ u
      rw [Bool.not_eq_true']
      exact ⟨fun hu => ⟨hminus, hu, minusInfinity_le hu⟩, fun h => h.2.1⟩
  | some l =>
    cases c.upper with
    | none =>
      show (!isNaN l) = true ↔ isNaN l = false ∧ isNaN infinity = false ∧ l ≤ infinity
      rw [Bool.not_eq_true']
      exact ⟨fun hl => ⟨hl, hplus, le_infinity hl⟩, fun h => h.1⟩
    | some u =>
      show (!isNaN l && !isNaN u && !decide (u < l)) = true ↔
        isNaN l = false ∧ isNaN u = false ∧ l ≤ u
      simp only [Bool.and_eq_true, Bool.not_eq_true', decide_eq_false_iff_not, and_assoc]
      exact and_congr_right fun hl => and_congr_right fun hu => not_lt_iff hl hu

/-- Bounds that are given as two numbers are refused, with both of these in the message, if one is
NaN or they are not in order. Otherwise the column has them. -/
theorem ServiceBackend.apply_bounds (b : ServiceBackend Float) (c : ColumnId) (l u : Float) :
    b.apply (.bounds c l u) =
      if isNaN l = false ∧ isNaN u = false ∧ l ≤ u then b.modifyColumn c (·.setBounds l u)
      else .error (.rejected (.invalidBounds (Scalar.text l) (Scalar.text u) c)) := by
  let col := (Column.continuous "").setBounds l u
  have hl : col.lowest = l := Column.lowest_setBounds ..
  have hu : col.highest = u := Column.highest_setBounds ..
  have hordered : col.Ordered ↔ isNaN l = false ∧ isNaN u = false ∧ l ≤ u := by
    rw [Column.ordered_iff, hl, hu]
  have hcheck : boundsConsistent (lowerLimit? l) (upperLimit? u) = true ↔ _ :=
    col.boundsConsistent_iff_ordered.trans hordered
  rw [Directive.bounds, apply, lowerText_lowerLimit?, upperText_upperLimit?]
  exact if_congr hcheck rfl rfl

end Line

/-- Where something can be wrong: in a term of the objective, in a term or the right-hand side of a
row, or in the bounds of a column. -/
inductive Site where
  | objectiveColumn (term : Nat)
  | objectiveCoefficient (term : Nat)
  | rowColumn (row term : Nat)
  | rowCoefficient (row term : Nat)
  | rowBound (row : Nat)
  | columnBounds (column : Nat)
deriving DecidableEq

/-- The way to a site, from the largest part that it is in to the smallest. -/
def Site.path : Site → List Nat
  | objectiveColumn k => [0, k, 0]
  | objectiveCoefficient k => [0, k, 1]
  | rowColumn i k => [1, i, 0, k, 0]
  | rowCoefficient i k => [1, i, 0, k, 1]
  | rowBound i => [1, i, 1]
  | columnBounds j => [2, j]

namespace Site

def Before (s t : Site) : Prop :=
  s.path < t.path

instance (s t : Site) : Decidable (s.Before t) :=
  inferInstanceAs (Decidable (s.path < t.path))

/-- The site is in the part `i` of what the way leads to. -/
def Under (way : List Nat) (i : Nat) (s : Site) : Prop :=
  ∃ rest, s.path = way ++ i :: rest

variable {s t : Site} {w : List Nat} {i j : Nat}

theorem Under.before (hs : s.Under w i) (ht : t.Under w j) (h : i < j) : s.Before t := by
  obtain ⟨rest, hs⟩ := hs
  obtain ⟨rest', ht⟩ := ht
  rw [Before, hs, ht]
  exact List.append_left_lt (List.cons_lt_cons_iff.2 (.inl h))

theorem Under.up (h : s.Under (w ++ [i]) j) : s.Under w i := by
  obtain ⟨rest, hs⟩ := h
  exact ⟨j :: rest, by rw [hs, List.append_assoc, List.singleton_append]⟩

end Site

/-- What is wrong at a site. -/
inductive Problem.Flaw (p : Problem Float) : Site → Defect Float → Prop where
  | objectiveColumn {k : Nat} {t : Nat × Float} (ht : p.objective.terms[k]? = some t)
    (h : p.columns.length ≤ t.1) : p.Flaw (.objectiveColumn k) (.objectiveColumn t.1)
  | objectiveCoefficient {k : Nat} {t : Nat × Float} (ht : p.objective.terms[k]? = some t)
    (h : Binary64.isFinite t.2 = false) :
    p.Flaw (.objectiveCoefficient k) (.objectiveCoefficient t.2)
  | rowColumn {i k : Nat} {c : Constraint Float} {t : Nat × Float}
    (hc : p.constraints[i]? = some c) (ht : c.terms[k]? = some t) (h : p.columns.length ≤ t.1) :
    p.Flaw (.rowColumn i k) (.rowColumn i t.1 p.columns.length)
  | rowCoefficient {i k : Nat} {c : Constraint Float} {t : Nat × Float}
    (hc : p.constraints[i]? = some c) (ht : c.terms[k]? = some t)
    (h : Binary64.isFinite t.2 = false) : p.Flaw (.rowCoefficient i k) (.rowCoefficient i t.2)
  | rowBound {i : Nat} {c : Constraint Float} (hc : p.constraints[i]? = some c)
    (h : Binary64.isNaN c.bound = true) : p.Flaw (.rowBound i) (.rowBound i)
  | columnBounds {j : Nat} {c : Column Float} (hc : p.columns[j]? = some c) (h : ¬ c.Ordered) :
    p.Flaw (.columnBounds j) (.columnBounds j c.name c.lower c.upper)

section Indexed

variable {γ δ ε : Type} {l : List γ} {f : γ → Nat → List δ}

theorem mem_flatMap_zipIdx {d : δ} :
    d ∈ l.zipIdx.flatMap (fun (a, i) => f a i) ↔ ∃ i a, l[i]? = some a ∧ d ∈ f a i := by
  rw [List.mem_flatMap]
  constructor
  · rintro ⟨⟨a, i⟩, hmem, hd⟩
    exact ⟨i, a, List.mem_zipIdx_iff_getElem?.1 hmem, hd⟩
  · rintro ⟨i, a, ha, hd⟩
    exact ⟨(a, i), List.mem_zipIdx_iff_getElem?.2 ha, hd⟩

theorem map_flatMap_zipIdx {g : δ → ε} {h : γ → Nat → List ε}
    (hg : ∀ a i, (f a i).map g = h a i) :
    (l.zipIdx.flatMap fun (a, i) => f a i).map g = l.zipIdx.flatMap fun (a, i) => h a i := by
  rw [List.map_flatMap]
  exact List.flatMap_congr fun x _ => hg x.1 x.2

theorem flatMap_zipIdx_const (h : γ → List δ) :
    (l.zipIdx.flatMap fun (a, _) => h a) = l.flatMap h := by
  rw [← List.zipIdx_map_fst 0 l, List.flatMap_map, List.zipIdx_map_fst]

end Indexed

def InOrder (fs : List (Site × Defect Float)) : Prop :=
  fs.Pairwise fun f g => f.1.Before g.1

section InOrder

variable {w : List Nat}

theorem InOrder.append {fs gs : List (Site × Defect Float)} {j : Nat} (hf : InOrder fs)
    (hg : InOrder gs) (hbelow : ∀ f ∈ fs, ∃ i < j, f.1.Under w i)
    (hunder : ∀ g ∈ gs, g.1.Under w j) : InOrder (fs ++ gs) := by
  refine List.pairwise_append.2 ⟨hf, hg, fun f hf g hg => ?_⟩
  obtain ⟨i, hi, hfi⟩ := hbelow f hf
  exact hfi.before (hunder g hg) hi

variable {γ : Type} {l : List γ} {f : γ → Nat → List (Site × Defect Float)}

/-- What is in order within each part is in order altogether. -/
theorem inOrder_flatMap_zipIdx (h : ∀ a i, InOrder (f a i))
    (hunder : ∀ a i, ∀ d ∈ f a i, d.1.Under w i) :
    InOrder (l.zipIdx.flatMap fun (a, i) => f a i) := by
  have hindices : l.zipIdx.Pairwise fun x y => x.2 < y.2 :=
    List.pairwise_map.1 (List.zipIdx_map_snd 0 l ▸ List.pairwise_lt_range')
  -- two flaws of one part are in order by hypothesis, those of two parts as the parts are
  refine List.pairwise_flatMap.2 ⟨fun x _ => h x.1 x.2, hindices.imp ?_⟩
  exact fun hlt d hd e he => (hunder _ _ d hd).before (hunder _ _ e he) hlt

theorem under_flatMap_zipIdx {j : Nat} (hunder : ∀ a i, ∀ d ∈ f a i, d.1.Under (w ++ [j]) i) :
    ∀ d ∈ l.zipIdx.flatMap fun (a, i) => f a i, d.1.Under w j := by
  intro d hd
  obtain ⟨i, a, -, hd⟩ := mem_flatMap_zipIdx.1 hd
  exact (hunder a i d hd).up

end InOrder

/-- What can be wrong with a term: its column, then its coefficient. -/
def termFlaws (columns : Nat) (t : Nat × Float) (column coefficient : Site × Defect Float) :
    List (Site × Defect Float) :=
  (if columns ≤ t.1 then [column] else []) ++
    (if Scalar.isFinite t.2 then [] else [coefficient])

def objectiveFlaws (columns : Nat) (t : Nat × Float) (k : Nat) : List (Site × Defect Float) :=
  termFlaws columns t (.objectiveColumn k, .objectiveColumn t.1)
    (.objectiveCoefficient k, .objectiveCoefficient t.2)

def rowTermFlaws (columns i : Nat) (t : Nat × Float) (k : Nat) : List (Site × Defect Float) :=
  termFlaws columns t (.rowColumn i k, .rowColumn i t.1 columns)
    (.rowCoefficient i k, .rowCoefficient i t.2)

def rowFlaws (columns : Nat) (c : Constraint Float) (i : Nat) : List (Site × Defect Float) :=
  (c.terms.zipIdx.flatMap fun (t, k) => rowTermFlaws columns i t k) ++
    (if Scalar.isNaN c.bound then [(.rowBound i, .rowBound i)] else [])

def columnFlaws (c : Column Float) (j : Nat) : List (Site × Defect Float) :=
  if boundsConsistent c.lower c.upper then []
  else [(.columnBounds j, .columnBounds j c.name c.lower c.upper)]

/-- The defects, each with its site. -/
def Problem.flaws (p : Problem Float) : List (Site × Defect Float) :=
  (p.objective.terms.zipIdx.flatMap fun (t, k) => objectiveFlaws p.columns.length t k) ++
    (p.constraints.zipIdx.flatMap fun (c, i) => rowFlaws p.columns.length c i) ++
    p.columns.zipIdx.flatMap fun (c, j) => columnFlaws c j

section Flaws

variable {columns i j k : Nat} {t : Nat × Float} {c : Constraint Float} {col : Column Float}
  {x y f : Site × Defect Float}

theorem mem_termFlaws :
    f ∈ termFlaws columns t x y ↔
      columns ≤ t.1 ∧ f = x ∨ Binary64.isFinite t.2 = false ∧ f = y := by
  have hfinite : Scalar.isFinite t.2 = Binary64.isFinite t.2 := rfl
  rw [termFlaws, List.mem_append, hfinite]
  refine or_congr ?_ ?_
  · split <;> simp [*]
  · cases Binary64.isFinite t.2 <;> simp

theorem map_termFlaws :
    (termFlaws columns t x y).map (·.2) =
      (if columns ≤ t.1 then [x.2] else []) ++ (if Scalar.isFinite t.2 then [] else [y.2]) := by
  rw [termFlaws, List.map_append]
  congr 1 <;> split <;> rfl

theorem inOrder_termFlaws (h : x.1.Before y.1) : InOrder (termFlaws columns t x y) := by
  unfold termFlaws
  split <;> split <;> simp [InOrder, h]

theorem map_rowFlaws : (rowFlaws columns c i).map (·.2) = constraintDefects columns c i := by
  have hterms := map_flatMap_zipIdx (l := c.terms) (g := (·.2)) (f := rowTermFlaws columns i)
    (h := fun t _ => termDefects columns i t) fun _ _ => map_termFlaws
  rw [flatMap_zipIdx_const] at hterms
  rw [rowFlaws, constraintDefects, List.map_append, hterms]
  congr 1
  split <;> rfl

theorem map_columnFlaws : (columnFlaws col j).map (·.2) = columnDefects col j := by
  unfold columnFlaws columnDefects
  split <;> rfl

theorem Problem.map_flaws (p : Problem Float) : p.flaws.map (·.2) = p.defects := by
  have hobjective := map_flatMap_zipIdx (l := p.objective.terms) (g := (·.2))
    (f := objectiveFlaws p.columns.length) (h := fun t _ => objectiveDefects p.columns.length t)
    fun _ _ => map_termFlaws
  rw [flatMap_zipIdx_const] at hobjective
  have hrows := map_flatMap_zipIdx (l := p.constraints) (g := (·.2))
    (f := rowFlaws p.columns.length) fun _ _ => map_rowFlaws
  have hcolumns := map_flatMap_zipIdx (l := p.columns) (g := (·.2)) (f := columnFlaws)
    fun _ _ => map_columnFlaws
  rw [flaws, defects, List.map_append, List.map_append, hobjective, hrows, hcolumns]

theorem mem_rowFlaws :
    f ∈ rowFlaws columns c i ↔ (∃ k t, c.terms[k]? = some t ∧ f ∈ rowTermFlaws columns i t k) ∨
      Binary64.isNaN c.bound = true ∧ f = (.rowBound i, .rowBound i) := by
  have hnan : Scalar.isNaN c.bound = Binary64.isNaN c.bound := rfl
  rw [rowFlaws, List.mem_append, mem_flatMap_zipIdx, hnan]
  refine or_congr_right ?_
  cases Binary64.isNaN c.bound <;> simp

theorem mem_columnFlaws :
    f ∈ columnFlaws col j ↔
      ¬ col.Ordered ∧ f = (.columnBounds j, .columnBounds j col.name col.lower col.upper) := by
  rw [columnFlaws, ← col.boundsConsistent_iff_ordered]
  cases boundsConsistent col.lower col.upper <;> simp

end Flaws

section Parts

variable (columns : Nat)

theorem under_objectiveFlaws (t : Nat × Float) (k : Nat) :
    ∀ f ∈ objectiveFlaws columns t k, f.1.Under [0] k := by
  intro f h
  rcases mem_termFlaws.1 h with ⟨-, rfl⟩ | ⟨-, rfl⟩
  · exact ⟨_, rfl⟩
  · exact ⟨_, rfl⟩

theorem under_rowTermFlaws (i : Nat) (t : Nat × Float) (k : Nat) :
    ∀ f ∈ rowTermFlaws columns i t k, f.1.Under [1, i, 0] k := by
  intro f h
  rcases mem_termFlaws.1 h with ⟨-, rfl⟩ | ⟨-, rfl⟩
  · exact ⟨_, rfl⟩
  · exact ⟨_, rfl⟩

theorem under_rowFlaws (c : Constraint Float) (i : Nat) :
    ∀ f ∈ rowFlaws columns c i, f.1.Under [1] i := by
  intro f h
  rcases mem_rowFlaws.1 h with ⟨k, t, -, hf⟩ | ⟨-, rfl⟩
  · exact ((under_rowTermFlaws columns i t k f hf).up (w := [1, i])).up (w := [1])
  · exact ⟨_, rfl⟩

theorem under_columnFlaws (c : Column Float) (j : Nat) :
    ∀ f ∈ columnFlaws c j, f.1.Under [2] j := by
  intro f h
  obtain ⟨-, rfl⟩ := mem_columnFlaws.1 h
  exact ⟨_, rfl⟩

theorem inOrder_objectiveFlaws (t : Nat × Float) (k : Nat) :
    InOrder (objectiveFlaws columns t k) :=
  inOrder_termFlaws (Site.Under.before (w := [0, k]) ⟨[], rfl⟩ ⟨[], rfl⟩ Nat.one_pos)

theorem inOrder_rowTermFlaws (i : Nat) (t : Nat × Float) (k : Nat) :
    InOrder (rowTermFlaws columns i t k) :=
  inOrder_termFlaws (Site.Under.before (w := [1, i, 0, k]) ⟨[], rfl⟩ ⟨[], rfl⟩ Nat.one_pos)

theorem inOrder_rowFlaws (c : Constraint Float) (i : Nat) : InOrder (rowFlaws columns c i) := by
  have hterms := inOrder_flatMap_zipIdx (l := c.terms) (inOrder_rowTermFlaws columns i)
    (under_rowTermFlaws columns i)
  -- the terms are part 0 of the row, and the right-hand side is part 1
  refine hterms.append (w := [1, i]) (j := 1) ?_ (fun f hf => ?_) fun f hf => ?_
  · split <;> simp [InOrder]
  · exact ⟨0, Nat.one_pos, under_flatMap_zipIdx (under_rowTermFlaws columns i) f hf⟩
  · split at hf
    · obtain rfl := List.mem_singleton.1 hf
      exact ⟨_, rfl⟩
    · cases hf

theorem inOrder_columnFlaws (c : Column Float) (j : Nat) : InOrder (columnFlaws c j) := by
  unfold columnFlaws
  split <;> simp [InOrder]

end Parts

namespace Problem

variable {p : Problem Float}

theorem inOrder_flaws (p : Problem Float) : InOrder p.flaws := by
  let n := p.columns.length
  have hobjective := inOrder_flatMap_zipIdx (l := p.objective.terms) (inOrder_objectiveFlaws n)
    (under_objectiveFlaws n)
  have hrows := inOrder_flatMap_zipIdx (l := p.constraints) (inOrder_rowFlaws n) (under_rowFlaws n)
  have hcolumns := inOrder_flatMap_zipIdx (l := p.columns) inOrder_columnFlaws under_columnFlaws
  have hfirst := under_flatMap_zipIdx (w := []) (l := p.objective.terms) (under_objectiveFlaws n)
  have hsecond := under_flatMap_zipIdx (w := []) (l := p.constraints) (under_rowFlaws n)
  have hthird := under_flatMap_zipIdx (w := []) (l := p.columns) under_columnFlaws
  refine (hobjective.append hrows (fun f hf => ?_) hsecond).append hcolumns (fun f hf => ?_) hthird
  · exact ⟨0, Nat.one_pos, hfirst f hf⟩
  · rcases List.mem_append.1 hf with hf | hf
    · exact ⟨0, Nat.two_pos, hfirst f hf⟩
    · exact ⟨1, Nat.one_lt_two, hsecond f hf⟩

theorem mem_flaws {f : Site × Defect Float} : f ∈ p.flaws ↔ p.Flaw f.1 f.2 := by
  obtain ⟨s, d⟩ := f
  rw [flaws, List.mem_append, List.mem_append, mem_flatMap_zipIdx, mem_flatMap_zipIdx,
    mem_flatMap_zipIdx]
  constructor
  · rintro ((⟨k, t, ht, hf⟩ | ⟨i, c, hc, hf⟩) | ⟨j, c, hc, hf⟩)
    · rcases mem_termFlaws.1 hf with ⟨h, ⟨⟩⟩ | ⟨h, ⟨⟩⟩
      · exact .objectiveColumn ht h
      · exact .objectiveCoefficient ht h
    · rcases mem_rowFlaws.1 hf with ⟨k, t, ht, hf⟩ | ⟨h, ⟨⟩⟩
      · rcases mem_termFlaws.1 hf with ⟨h, ⟨⟩⟩ | ⟨h, ⟨⟩⟩
        · exact .rowColumn hc ht h
        · exact .rowCoefficient hc ht h
      · exact .rowBound hc h
    · obtain ⟨h, ⟨⟩⟩ := mem_columnFlaws.1 hf
      exact .columnBounds hc h
  · intro h
    cases h with
    | objectiveColumn ht h => exact .inl (.inl ⟨_, _, ht, mem_termFlaws.2 (.inl ⟨h, rfl⟩)⟩)
    | objectiveCoefficient ht h => exact .inl (.inl ⟨_, _, ht, mem_termFlaws.2 (.inr ⟨h, rfl⟩)⟩)
    | rowColumn hc ht h =>
      exact .inl (.inr ⟨_, _, hc,
        mem_rowFlaws.2 (.inl ⟨_, _, ht, mem_termFlaws.2 (.inl ⟨h, rfl⟩)⟩)⟩)
    | rowCoefficient hc ht h =>
      exact .inl (.inr ⟨_, _, hc,
        mem_rowFlaws.2 (.inl ⟨_, _, ht, mem_termFlaws.2 (.inr ⟨h, rfl⟩)⟩)⟩)
    | rowBound hc h => exact .inl (.inr ⟨_, _, hc, mem_rowFlaws.2 (.inr ⟨h, rfl⟩)⟩)
    | columnBounds hc h => exact .inr ⟨_, _, hc, mem_columnFlaws.2 ⟨h, rfl⟩⟩

end Problem

end LinearProgram
