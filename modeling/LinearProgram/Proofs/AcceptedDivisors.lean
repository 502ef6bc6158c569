import LinearProgram.Proofs.KeptInFiles
import LinearProgram.Proofs.Reciprocals
import LinearProgram.Proofs.SolveStates
import LinearProgram.Proofs.ValidPrograms

/-! Divisors that a division accepts. It asks for a finite number that is not zero, but what its row
holds is the reciprocal, and this is infinite for the numbers next to zero. -/

namespace LinearProgram

open Binary64

/-- A coefficient of zero is not kept. -/
theorem LinearRow.offsetTerms_tied {c n : ColumnId} (h : c.number < n.number) (v : Float) :
    ((LinearRow.empty.add c v).add n (-1)).offsetTerms =
      if v == 0 then [(n.offset, -1)] else [(c.offset, v), (n.offset, -1)] := by
  have hone : (0 : Float) + -1 = -1 := zero_add_of_ne_zero (by decide +kernel)
  have hentries : ((LinearRow.empty.add c v).add n (-1)).entries = [(c, 0 + v), (n, 0 + -1)] := by
    rw [entries_add, addTerm_of_lt (-1) (by simpa [addTerm] using h)]
    rfl
  have hkept : (!((0 : Float) + -1 == 0)) = true := by decide +kernel
  rw [offsetTerms, terms, hentries]
  cases hv : v == 0 with
  | true =>
    have hdropped : ¬ (!((0 : Float) + v == 0)) = true := by
      rw [zero_add_beq_zero, hv]
      decide
    rw [List.filter_cons_of_neg, List.filter_cons_of_pos, List.filter_nil]
    · exact congrArg (fun x => [(n.offset, x)]) hone
    · exact hkept
    · exact hdropped
  | false =>
    have hboth : (!((0 : Float) + v == 0)) = true := by rw [zero_add_beq_zero, hv]; rfl
    rw [List.filter_cons_of_pos, List.filter_cons_of_pos, List.filter_nil]
    · exact congrArg₂ (fun x y => [(c.offset, x), (n.offset, y)]) (zero_add_of_ne_zero hv) hone
    · exact hkept
    · exact hboth

namespace Model

section Definitions

variable {α : Type} [Scalar α]

/-- The row that ties a new variable to what its operands add up to. -/
def definingRow (m : Model α (ServiceBackend α)) (operands : LinearRow α) : Constraint α where
  sense := .equal
  terms := (operands.add m.registry.nextColumn (-1)).offsetTerms
  bound := 0
  name := (RowId.mk (m.backend.problem.constraints.length + 1)).text

theorem constraints_defined (m : Model α (ServiceBackend α)) (d : Domain) (constant : Option α)
    (label : String) (operands : LinearRow α) :
    (m.defined d constant label operands).backend.problem.constraints =
      m.backend.problem.constraints ++ [m.definingRow operands] :=
  rfl

end Definitions

variable {m : Model Float (ServiceBackend Float)}

theorem defects_defined (h : m.backend.problem.Valid) (d : Domain) (constant : Option Float)
    (label : String) (operands : LinearRow Float) :
    (m.defined d constant label operands).backend.problem.defects =
      constraintDefects (m.backend.problem.columns.length + 1) (m.definingRow operands)
        m.backend.problem.constraints.length := by
  have hgrown := h.addColumn
    (d.boundsConsistent_column (Registry.generatedName m.registry.nextAnonymous))
  have hrow := hgrown.defects_addRow (m.definingRow operands)
  rw [List.length_append, List.length_singleton] at hrow
  exact hrow

theorem InStep.terms_definingRow (h : m.InStep) {c : ColumnId}
    (hc : m.backend.hasColumn c = true) (v : Float) :
    (m.definingRow (LinearRow.empty.add c v)).terms =
      if v == 0 then [(m.backend.problem.columns.length, -1)]
      else [(c.offset, v), (m.backend.problem.columns.length, -1)] := by
  obtain ⟨hne, hlt⟩ := ServiceBackend.hasColumn_iff.1 hc
  have hnumber : c.number < m.registry.nextColumn.number := by
    rw [h.nextColumn]
    unfold ColumnId.offset at hlt
    show c.number < m.backend.problem.columns.length + 1
    omega
  have hoffset : m.registry.nextColumn.offset = m.backend.problem.columns.length := by
    rw [h.nextColumn]
    rfl
  rw [← hoffset]
  exact LinearRow.offsetTerms_tied hnumber v

theorem isFinite_neg_one : isFinite (-1) = true := by
  decide +kernel

theorem InStep.isFinite_definingRow_iff (h : m.InStep) {c : ColumnId}
    (hc : m.backend.hasColumn c = true) (v : Float) :
    (∀ t ∈ (m.definingRow (LinearRow.empty.add c v)).terms, isFinite t.2 = true) ↔
      isFinite v = true := by
  rw [h.terms_definingRow hc]
  cases hv : v == 0 with
  | true => simp [isFinite_neg_one, isFinite_of_beq_zero hv]
  | false => simp [isFinite_neg_one]

/-- The one thing that can be wrong with a new multiple of a variable is its factor. -/
theorem InStep.defects_definingRow (h : m.InStep) {c : ColumnId}
    (hc : m.backend.hasColumn c = true) (v : Float) (i : Nat) :
    constraintDefects (m.backend.problem.columns.length + 1)
        (m.definingRow (LinearRow.empty.add c v)) i =
      if isFinite v then [] else [.rowCoefficient i v] := by
  have hlt := (ServiceBackend.hasColumn_iff.1 hc).2
  have hfirst : termDefects (m.backend.problem.columns.length + 1) i (c.offset, v) =
      if isFinite v then [] else [.rowCoefficient i v] :=
    termDefects_of_lt (Nat.lt_succ_of_lt hlt)
  have hlast : termDefects (m.backend.problem.columns.length + 1) i
      (m.backend.problem.columns.length, (-1 : Float)) =
        if isFinite (-1) then [] else [.rowCoefficient i (-1)] :=
    termDefects_of_lt (Nat.lt_succ_self _)
  rw [if_pos isFinite_neg_one] at hlast
  have hbound : Scalar.isNaN (m.definingRow (LinearRow.empty.add c v)).bound = false :=
    ZeroIsNumber.isNaN_zero
  rw [constraintDefects, h.terms_definingRow hc, hbound]
  cases hv : v == 0 with
  | true => simp [hlast, isFinite_of_beq_zero hv]
  | false => simp [hlast, hfirst]

end Model

section Engines

variable {name : String} {engine : Engine.Program Float → Engine.Outcome}
  {b : ServiceBackend Float}

theorem ServiceBackend.solve_of_validate_error (hs : b.service = engineService name engine)
    {e : SolverError} (h : b.problem.validate = .error e) : b.solve = .error (.solver e) := by
  simp [solve, hs, engineService, h, bind, Except.bind]

theorem ServiceBackend.exists_solve_of_validate_ok (hs : b.service = engineService name engine)
    (h : b.problem.validate = .ok ()) : ∃ r b', b.solve = .ok (r, b') := by
  simp [solve, hs, engineService, h, bind, Except.bind, pure, Except.pure]

end Engines

theorem Call.open_of_divide {α β : Type} [Scalar α] [Backend α β] {m m' : Model α β}
    {a x : Variable} {k : α} {d : Domain} (h : divide a k d m = .ok x m') : m.Open := by
  rw [divide, bind_eq_ok_iff] at h
  obtain ⟨_, _, hb, -⟩ := h
  exact (buildable_eq_ok_iff.1 hb).1

/-- What a division adds to a program without defects. -/
theorem Model.InStep.divided [Json.NumberReader] {m m' : Model Float (ServiceBackend Float)}
    (h : m.InStep) (hv : m.backend.problem.Valid) {a x : Variable} {k : Float} {d : Domain}
    (hd : Call.divide a k d m = .ok x m') :
    m'.Open ∧ m'.backend.service = m.backend.service ∧
      (∃ row, m'.backend.problem.constraints = m.backend.problem.constraints ++ [row] ∧
        ((∀ t ∈ row.terms, isFinite t.2 = true) ↔ isFinite (1 / k) = true)) ∧
      m'.backend.problem.defects =
        if isFinite (1 / k) then [] else [.rowCoefficient m.rows (1 / k)] := by
  obtain ⟨ho, -, -, -, -, i, hi, rfl⟩ := (Call.divide_eq_ok_iff h).1 hd
  have hcolumn := h.hasColumn_of_info hi
  refine ⟨ho, rfl, ⟨_, constraints_defined .., h.isFinite_definingRow_iff hcolumn _⟩, ?_⟩
  rw [defects_defined hv, h.rows]
  exact h.defects_definingRow hcolumn _ _

/-- Whatever a session has led to, a program without defects stays one after a division just when
the divisor is above 2 to the power -1024 in magnitude, and then it can be solved. Otherwise the
reciprocal in the new row is infinite, which is its only defect, and the next solve meets it and
leaves the model poisoned. -/
theorem Model.divided_stays_valid_iff [Json.NumberReader] (name : String)
    (engine : Engine.Program Float → Engine.Outcome) (id : ModelId) (config : Config Float)
    (events : List Event) (as : List (Action Float)) :
    let m := (Model.fresh id (engineService name engine) config events).after as
    m.backend.problem.validate = .ok () →
      ∀ a k d x m', Call.divide a k d m = .ok x m' →
        (∃ row, m'.backend.problem.constraints = m.backend.problem.constraints ++ [row] ∧
          ((∀ t ∈ row.terms, isFinite t.2 = true) ↔ (2 : Rat) ^ (-1024 : Int) < |toRat k|)) ∧
        (m'.backend.problem.validate = .ok () ↔ (2 : Rat) ^ (-1024 : Int) < |toRat k|) ∧
        ((2 : Rat) ^ (-1024 : Int) < |toRat k| → ∃ status n, Call.solve m' = .ok status n) ∧
        (|toRat k| ≤ (2 : Rat) ^ (-1024 : Int) →
          m'.backend.problem.defects = [.rowCoefficient m.rows (1 / k)] ∧
          ∃ n, Call.solve m' = .error (.backend .solve (.solver (.invalidProblem
              (Defect.report [.rowCoefficient m.rows (1 / k)])))) n ∧
            n.poisoned = true ∧ n.state = .solving) := by
  intro m hvalid a k d x m' hdivide
  have hbalanced : m.Balanced := (InStep.fresh id _ config events).balanced.after as
  have haccounted : m.Accounted (engineService name engine) :=
    (Accounted.fresh id _ config events).after (InStep.fresh id _ config events).balanced as
  have hm : m.InStep := hbalanced.inStep (Call.open_of_divide hdivide).1
  obtain ⟨-, hk, hk0, -⟩ := (Call.divide_eq_ok_iff hm).1 hdivide
  have hfinite := isFinite_one_div_iff hk (mantissa_ne_zero hk hk0)
  obtain ⟨hopen, hservice, ⟨row, hrow, hterms⟩, hdefects⟩ :=
    hm.divided (Problem.validate_eq_ok_iff_valid.1 hvalid) hdivide
  rw [haccounted.served] at hservice
  have hiff : m'.backend.problem.validate = .ok () ↔ isFinite (1 / k) = true := by
    rw [Problem.validate_eq_ok_iff, hdefects]
    split <;> simp_all
  refine ⟨⟨row, hrow, hterms.trans hfinite⟩, hiff.trans hfinite, fun hlarge => ?_, fun hsmall => ?_⟩
  · obtain ⟨⟨raw, reported⟩, b, hb⟩ :=
      ServiceBackend.exists_solve_of_validate_ok hservice (hiff.2 (hfinite.2 hlarge))
    obtain ⟨seen, hsolve⟩ := Call.solve_of_ok hopen (Request.step_of_ok hb)
    exact ⟨_, _, hsolve⟩
  · rw [if_neg fun hf => not_lt.2 hsmall (hfinite.1 hf)] at hdefects
    have hv : m'.backend.problem.validate = .error (.invalidProblem
        (Defect.report [.rowCoefficient m.rows (1 / k)])) := by
      rw [Problem.validate, hdefects]
      rfl
    obtain ⟨seen, hsolve⟩ := Call.solve_of_error hopen
      (Request.step_of_error (ServiceBackend.solve_of_validate_error hservice hv))
    exact ⟨hdefects, _, hsolve, rfl, rfl⟩

/-- A third of a variable is harmless, and the variable over the smallest number is not. -/
theorem Model.divided_stays_valid_iff_least :
    let m := (Model.fresh ⟨0⟩ (engineService "microlp" Engine.run) {} []).after
      [.build (.make (.create "x") .anyReal)]
    let x : Variable := ⟨⟨0⟩, 0, ⟨1⟩⟩
    m.backend.problem.validate = .ok () ∧
      (∃ m', Call.divide x 3 .anyReal m = .ok ⟨⟨0⟩, 0, ⟨2⟩⟩ m' ∧
        m'.backend.problem.validate = .ok () ∧ ∃ status n, Call.solve m' = .ok status n) ∧
      ∃ m', Call.divide x Build.least .anyReal m = .ok ⟨⟨0⟩, 0, ⟨2⟩⟩ m' ∧
        m'.backend.problem.validate ≠ .ok () ∧
        ∃ e n, Call.solve m' = .error e n ∧ n.poisoned = true := by
  intro m x
  have hvalid : m.backend.problem.validate = .ok () :=
    Problem.validate_eq_ok_iff.2 (List.isEmpty_iff.1 (by decide +kernel))
  have hm : m.InStep := ⟨by decide +kernel, by decide +kernel, by decide +kernel⟩
  have hopen : m.Open := ⟨by decide +kernel, by decide +kernel⟩
  obtain ⟨i, hi⟩ : ∃ i, m.registry.info x = .ok i :=
    ⟨_, Registry.info_eq_ok_iff.2 ⟨Registry.resolve_eq_ok_iff.2 (by decide +kernel),
      List.getElem?_eq_getElem (by decide +kernel)⟩⟩
  have hhandle : m.newHandle = ⟨⟨0⟩, 0, ⟨2⟩⟩ := by decide +kernel
  have hthird : Call.divide x 3 .anyReal m = .ok ⟨⟨0⟩, 0, ⟨2⟩⟩ _ :=
    (Call.divide_eq_ok_iff hm).2
      ⟨hopen, by decide +kernel, by decide +kernel, rfl, hhandle, i, hi, rfl⟩
  have hleast : Call.divide x Build.least .anyReal m = .ok ⟨⟨0⟩, 0, ⟨2⟩⟩ _ :=
    (Call.divide_eq_ok_iff hm).2
      ⟨hopen, by decide +kernel, by decide +kernel, rfl, hhandle, i, hi, rfl⟩
  have hlarge : (2 : Rat) ^ (-1024 : Int) < |toRat 3| := by
    rw [abs_toRat, lt_magnitude_iff]
    decide +kernel
  have hsmall : |toRat Build.least| ≤ (2 : Rat) ^ (-1024 : Int) := by
    rw [abs_toRat, ← not_lt, lt_magnitude_iff]
    decide +kernel
  obtain ⟨-, hthirdIff, hsolved, -⟩ :=
    divided_stays_valid_iff "microlp" Engine.run ⟨0⟩ {} [] _ hvalid x 3 _ _ _ hthird
  obtain ⟨-, hleastIff, -, hrefused⟩ :=
    divided_stays_valid_iff "microlp" Engine.run ⟨0⟩ {} [] _ hvalid x Build.least _ _ _ hleast
  obtain ⟨-, n, hsolve, hp, -⟩ := hrefused hsmall
  exact ⟨hvalid, ⟨_, hthird, hthirdIff.2 hlarge, hsolved hlarge⟩, _, hleast,
    fun h => not_lt.2 hsmall (hleastIff.1 h), _, n, hsolve, hp⟩

end LinearProgram
