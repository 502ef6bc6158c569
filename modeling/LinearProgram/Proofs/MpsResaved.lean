import LinearProgram.Proofs.Counting
import LinearProgram.Proofs.MpsNumbers

/-! A program that was read from a file, whoever wrote the file, is written and read once more.
Totals, senses, right-hand sides and bounds are kept, except for the bounds of binary columns. -/

namespace LinearProgram.Mps

open Binary64

variable {text : String} {p : Problem Float}

/-- A binary column is written without its bounds, and is given zero and one for them. -/
def settled (c : Column Float) : Column Float :=
  if c.isBinary then { c with lower := some 0, upper := some 1 } else c

theorem settled_of_ne_binary {c : Column Float} (hc : c.type ≠ .binary) : settled c = c :=
  if_neg (by simpa [Column.isBinary] using hc)

def OrdinaryTotals (columns : Nat) (ts : Terms Float) : Prop :=
  ∀ j < columns, Ordinary (columnSum ts j)

instance (columns : Nat) (ts : Terms Float) : Decidable (OrdinaryTotals columns ts) :=
  inferInstanceAs (Decidable (∀ j < columns, _))

/-- Terms that add up to the same on each of the first columns. -/
def SameTotals (columns : Nat) (ts us : Terms Float) : Prop :=
  ∀ j < columns, (columnSum ts j == columnSum us j) = true

theorem filter_normalTerms {n j : Nat} (hj : j < n) (ts : Terms Float) :
    (normalTerms n ts).filter (fun t => t.1 = j) =
      if columnSum ts j == 0 then [] else [(j, columnSum ts j)] := by
  have honly : (List.range n).filter (fun i => i == j) = [j] := by
    rw [List.filter_beq, List.count_eq_one_of_mem List.nodup_range (List.mem_range.2 hj)]
    rfl
  have hswap : (normalTerms n ts).filter (fun t => t.1 = j) =
      (((List.range n).filter fun i => i == j).map fun i => (i, columnSum ts i)).filter
        fun t => !(t.2 == 0) := by
    rw [normalTerms, List.filter_comm, List.filter_map]
    rfl
  rw [hswap, honly]
  cases hz : columnSum ts j == 0 <;> simp [hz]

theorem columnSum_normalTerms {n j : Nat} (hj : j < n) (ts : Terms Float) :
    columnSum (normalTerms n ts) j =
      if columnSum ts j == 0 then 0 else 0 + columnSum ts j := by
  conv_lhs => rw [columnSum]
  rw [filter_normalTerms hj]
  split <;> rfl

theorem OrdinaryTotals.sameTotals {n : Nat} {ts : Terms Float} (h : OrdinaryTotals n ts) :
    SameTotals n (gathered ts n) ts := by
  intro j hj
  rw [gathered_eq h, columnSum_normalTerms hj]
  cases hz : columnSum ts j == 0 with
  | true => exact BEq.symm hz
  | false =>
    -- the terms are added up twice, and the second time there is one term at most
    rw [if_neg Bool.false_ne_true, zero_add_of_ne_zero hz]
    exact (h j hj).beq_self

theorem beq_settled {c : Column Float} (h : BoundsOf Ordinary c) :
    (rereadColumn c == settled c) = true := by
  by_cases hb : c.type = .binary
  · have hc : settled c = ⟨.binary, some 0, some 1, c.name⟩ := by
      rw [settled, if_pos (by simp [Column.isBinary, hb]), ← hb]
    have hunit : (some (0 : Float) == some 0) = true ∧ (some (1 : Float) == some 1) = true := by
      decide +kernel
    rw [rereadColumn_binary (by simp [Column.isBinary, hb]), hc, beq_column]
    exact ⟨rfl, hunit.1, hunit.2, rfl⟩
  · rw [settled_of_ne_binary hb]
    exact beq_rereadColumn hb h.1 h.2

theorem beq_rereadColumn_iff {c : Column Float} (h : BoundsOf Ordinary c) :
    (rereadColumn c == c) = true ↔
      (c.type = .binary → (c.lower == some 0) = true ∧ (c.upper == some 1) = true) := by
  by_cases hb : c.type = .binary
  · rw [beq_rereadColumn_binary hb]
    exact ⟨fun h _ => h, fun h => h hb⟩
  · exact ⟨fun _ he => absurd he hb, fun _ => beq_rereadColumn hb h.1 h.2⟩

/-- What of a program is left when it is written and read: everything but the bounds of its binary
columns, up to the order of terms. -/
structure Resaved (p q : Problem Float) : Prop where
  columns : (q.columns == p.columns.map settled) = true
  direction : q.objective.direction = p.objective.direction
  objective : SameTotals p.columns.length q.objective.terms p.objective.terms
  constraints : List.Forall₂ (fun c d => d.sense = c.sense ∧ (d.bound == c.bound) = true ∧
    SameTotals p.columns.length d.terms c.terms) p.constraints q.constraints

namespace Regular

theorem write_eq {P : Float → Prop} (h : Regular P p) :
    write p = .ok (String.join ((allLines p).map (· ++ "\n"))) :=
  write_of_obstacle?_eq_none (obstacle?_eq_none h.isWord (fun t ht => (h.objective t ht).1)
    fun c hc t ht => ((h.constraints c hc).1 t ht).1)

theorem resaved (h : Regular Ordinary p) (ho : OrdinaryTotals p.columns.length p.objective.terms)
    (hc : ∀ c ∈ p.constraints, OrdinaryTotals p.columns.length c.terms) :
    Resaved p (reread p) where
  columns := beq_map.2 fun c hc => beq_settled (h.bounds c hc)
  direction := rfl
  objective := ho.sameTotals
  constraints := by
    have hzip : p.constraints = p.constraints.zipIdx.map Prod.fst := by simp
    conv => arg 2; rw [hzip]
    refine List.forall₂_map_left_iff.2 (List.forall₂_map_right_iff.2 (List.forall₂_same.2 ?_))
    intro ⟨c, i⟩ hci
    have hmem : c ∈ p.constraints := List.fst_mem_of_mem_zipIdx hci
    exact ⟨rfl, beq_rereadBound (h.constraints c hmem).2, (hc c hmem).sameTotals⟩

theorem beq_columns_iff (h : Regular Ordinary p) :
    ((reread p).columns == p.columns) = true ↔ ∀ c ∈ p.columns, c.type = .binary →
      (c.lower == some 0) = true ∧ (c.upper == some 1) = true :=
  map_beq.trans (forall₂_congr fun c hc => beq_rereadColumn_iff (h.bounds c hc))

end Regular

/-- A program that was read from a file of ordinary numbers is written and read again. It is the
same as before, if its binary columns have the bounds that the word for them stands for. -/
theorem read_write_read (hr : read text = .ok p) (hn : ∀ x ∈ numbers text, Ordinary x)
    (ho : OrdinaryTotals p.columns.length p.objective.terms)
    (hc : ∀ c ∈ p.constraints, OrdinaryTotals p.columns.length c.terms) :
    ∃ written q, write p = .ok written ∧ read written = .ok q ∧ Resaved p q ∧
      ((q.columns == p.columns) = true ↔ ∀ c ∈ p.columns, c.type = .binary →
        (c.lower == some 0) = true ∧ (c.upper == some 1) = true) := by
  have h := regular_of_ordinary hn hr
  exact ⟨_, reread p, h.write_eq, read_write h.named h.write_eq, h.resaved ho hc,
    h.beq_columns_iff⟩

/-- A binary column that a later line keeps at zero. -/
def tightened : String :=
  "NAME\nROWS\n N obj\n L row\nCOLUMNS\n x obj 1 row 2\n y row 1 row 1\nRHS\n s row 3\n" ++
    "BOUNDS\n BV b x\n UP b x 0\n UP b y 4\nENDATA\n"

theorem read_write_read_tightened :
    ∃ p written q, read tightened = .ok p ∧ (∀ x ∈ numbers tightened, Ordinary x) ∧
      write p = .ok written ∧ read written = .ok q ∧ Resaved p q ∧
      (q.columns == p.columns) = false := by
  have hn : ∀ x ∈ numbers tightened, Ordinary x := by decide +kernel
  obtain ⟨p, hp, ho, hc, hb⟩ : ∃ p ∈ (read tightened).toOption,
      OrdinaryTotals p.columns.length p.objective.terms ∧
      (∀ c ∈ p.constraints, OrdinaryTotals p.columns.length c.terms) ∧
      ¬ ∀ c ∈ p.columns, c.type = .binary →
        (c.lower == some 0) = true ∧ (c.upper == some 1) = true := by decide +kernel
  have hr : read tightened = .ok p := eq_ok_of_mem_toOption hp
  obtain ⟨written, q, hw, hq, hkept, hsame⟩ := read_write_read hr hn ho hc
  exact ⟨p, written, q, hr, hn, hw, hq, hkept, Bool.eq_false_iff.2 fun h => hb (hsame.1 h)⟩

end LinearProgram.Mps
