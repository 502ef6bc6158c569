import LinearProgram.Proofs.DefectSites
import LinearProgram.Proofs.EngineTranslation
import LinearProgram.Proofs.NativeRoundTrip

/-! What validation tells of a program. Each place where something is wrong has its message, in the
order of the program, and there are no other messages. Where there are none, every variable that the
engine's expressions ask for has been declared. -/

namespace LinearProgram

namespace Problem

variable {p : Problem Float}

theorem flaws_eq_nil_iff : p.flaws = [] ↔ p.validate = .ok () := by
  rw [validate_eq_ok_iff, ← p.map_flaws, List.map_eq_nil_iff]

theorem validate_of_flaws (h : p.flaws ≠ []) :
    p.validate =
      .error (.invalidProblem ("; ".intercalate (p.flaws.map fun f => f.2.message))) := by
  have hempty : p.defects.isEmpty = false := by
    rwa [List.isEmpty_eq_false_iff, ← p.map_flaws, ne_eq, List.map_eq_nil_iff]
  have hreport : Defect.report p.defects =
      "; ".intercalate (p.flaws.map fun f => f.2.message) := by
    rw [Defect.report, ← p.map_flaws, List.map_map]
    rfl
  rw [validate, hempty, hreport]
  rfl

theorem validate_eq_ok_iff_ordered : p.validate = .ok () ↔
    Terms.Proper p.columns.length p.objective.terms ∧
      (∀ c ∈ p.constraints,
        Terms.Proper p.columns.length c.terms ∧ Binary64.isNaN c.bound = false) ∧
      ∀ c ∈ p.columns, c.Ordered := by
  have hcolumns : (∀ c ∈ p.columns, boundsConsistent c.lower c.upper = true) ↔
      ∀ c ∈ p.columns, c.Ordered :=
    forall₂_congr fun c _ => c.boundsConsistent_iff_ordered
  rw [validate_eq_ok_iff_valid, ← hcolumns]
  exact ⟨fun h => ⟨h.objective, h.rows, h.columns⟩, fun h => ⟨h.1, h.2.1, h.2.2⟩⟩

end Problem

section Declared

variable {α : Type} [Scalar α] {n : Nat}

/-- The variables that the engine is given, one for each column. -/
def declared (n : Nat) : List ColumnId :=
  (List.range n).map ColumnId.ofOffset

theorem getElem?_declared (k : Nat) :
    (declared n)[k]? = if k < n then some (ColumnId.ofOffset k) else none := by
  rw [declared, List.getElem?_map]
  split <;> simp_all

namespace Terms

/-- Adds the terms to an expression over variables that have been declared, and fails where one is
asked for that has not. A term that says nothing asks for none. -/
def addTo (vs : List ColumnId) (r : LinearRow α) : Terms α → Option (LinearRow α)
  | [] => some r
  | t :: ts => if t.2 == 0 then addTo vs r ts else vs[t.1]?.bind fun c => addTo vs (r.add c t.2) ts

/-- All terms that say something are on the first `n` columns. -/
def within (n : Nat) (ts : Terms α) : Bool :=
  ts.all fun t => t.2 == 0 || t.1 < n

theorem Proper.within {ts : Terms α} (h : Proper n ts) : within n ts = true :=
  List.all_eq_true.2 fun t ht => by simp [(h t ht).1]

/-- An expression is put together exactly if the variables that it asks for have been declared. -/
theorem addTo_declared (ts : Terms α) :
    addTo (declared n) .empty ts = if within n ts then some (expression ts) else none := by
  have hfold (r : LinearRow α) : addTo (declared n) r ts =
      if within n ts then
        some (((ts.filter fun t => !(t.2 == 0)).map fun t => (ColumnId.ofOffset t.1, t.2)).foldl
          (fun r t => r.add t.1 t.2) r)
      else none := by
    -- each term adds to the expression so far, so this has to hold of any
    induction ts generalizing r with
    | nil => rfl
    | cons t ts ih =>
      have hcons : within n (t :: ts) = ((t.2 == 0 || decide (t.1 < n)) && within n ts) := rfl
      rw [hcons, addTo, getElem?_declared]
      cases h0 : t.2 == 0 with
      | true => simp [h0, ih]
      | false =>
        by_cases hlt : t.1 < n
        · simp [h0, hlt, ih]
        · simp [hlt]
  exact hfold .empty

end Terms

/-- The row for the engine, over variables that have been declared. -/
def Constraint.translate? (vs : List ColumnId) (c : Constraint α) : Option (Engine.Row α) :=
  (Terms.addTo vs .empty c.terms).map fun r => ⟨r, c.sense, c.bound⟩

namespace Problem

/-- The program for the engine, put together as `program` is but over variables that have been
declared. -/
def translate? (p : Problem α) : Option (Engine.Program α) := do
  let vs := declared p.columns.length
  let objective ← Terms.addTo vs .empty p.objective.terms
  let rows ← p.constraints.mapM (Constraint.translate? vs)
  return ⟨p.columns.map Column.range, p.objective.direction, objective, rows⟩

theorem translate?_eq (p : Problem α) :
    p.translate? =
      if Terms.within p.columns.length p.objective.terms &&
        p.constraints.all fun c => Terms.within p.columns.length c.terms
      then some p.program else none := by
  have hrow (c : Constraint α) : Constraint.translate? (declared p.columns.length) (id c) =
      if Terms.within p.columns.length c.terms then
        some ⟨Terms.expression c.terms, c.sense, c.bound⟩
      else none := by
    rw [id, Constraint.translate?, Terms.addTo_declared]
    split <;> rfl
  have hrows := Json.mapM_map (l := p.constraints) fun c _ => hrow c
  rw [List.map_id] at hrows
  simp only [translate?, Terms.addTo_declared, hrows]
  cases Terms.within p.columns.length p.objective.terms
  · rfl
  · cases p.constraints.all fun c => Terms.within p.columns.length c.terms <;> rfl

theorem Valid.translate? {p : Problem α} (h : p.Valid) : p.translate? = some p.program := by
  have hrows : (p.constraints.all fun c => Terms.within p.columns.length c.terms) = true :=
    List.all_eq_true.2 fun c hc => (h.rows c hc).1.within
  rw [translate?_eq, h.objective.within, hrows]
  rfl

end Problem

end Declared

namespace Problem

/-- Validation lets through exactly the programs whose terms are on their columns and finite, whose
right-hand sides are numbers and whose bounds are in order. Of any other it tells what is wrong,
each flaw once and in the order of the program. What it lets through can be put together over the
variables that the engine has been given. -/
theorem validation_exact (p : Problem Float) :
    (p.validate = .ok () ↔
      Terms.Proper p.columns.length p.objective.terms ∧
        (∀ c ∈ p.constraints,
          Terms.Proper p.columns.length c.terms ∧ Binary64.isNaN c.bound = false) ∧
        ∀ c ∈ p.columns, c.Ordered) ∧
      (p.validate ≠ .ok () → ∃ fs : List (Site × Defect Float),
        fs ≠ [] ∧ InOrder fs ∧ (∀ s d, (s, d) ∈ fs ↔ p.Flaw s d) ∧
          p.validate =
            .error (.invalidProblem ("; ".intercalate (fs.map fun f => f.2.message)))) ∧
      (p.validate = .ok () → p.translate? = some p.program) := by
  refine ⟨validate_eq_ok_iff_ordered, fun h => ?_, fun h => ?_⟩
  · have hflaws : p.flaws ≠ [] := fun hnil => h (flaws_eq_nil_iff.1 hnil)
    exact ⟨p.flaws, hflaws, p.inOrder_flaws, fun _ _ => mem_flaws, validate_of_flaws hflaws⟩
  · exact (validate_eq_ok_iff_valid.1 h).translate?

/-- Two flaws in one term, a row with three and bounds that are crossed or not numbers. -/
def flawed : Problem Float where
  objective.terms := [(0, 1), (3, Binary64.notANumber)]
  constraints := [⟨.lessEqual, [(1, 2)], Binary64.infinity, ""⟩,
    ⟨.equal, [(0, 1), (2, -Binary64.infinity)], Binary64.notANumber, ""⟩]
  columns := [⟨.continuous, some 5, some 1, "x"⟩, ⟨.integer, none, some Binary64.notANumber, "y"⟩]

theorem validation_exact_flawed :
    (∃ fs : List (Site × Defect Float), InOrder fs ∧ (∀ s d, (s, d) ∈ fs ↔ flawed.Flaw s d) ∧
        "; ".intercalate (fs.map fun f => f.2.message) =
          "Objective references unknown column 3; Objective coefficient NaN is not finite; " ++
          "Constraint 1 references column 2 but problem has 2 variables; " ++
          "Constraint 1 has non-finite coefficient -inf; " ++
          "Constraint 1 has a NaN right-hand side; " ++
          "Variable 0 'x' has lower bound (5) > upper bound (1); " ++
          "Variable 1 'y' has lower bound (-inf) > upper bound (NaN)") ∧
      mixed.validate = .ok () ∧ mixed.translate? = some mixed.program := by
  have hempty : flawed.defects.isEmpty = false := by decide +kernel
  have herror : flawed.validate = .error (.invalidProblem (Defect.report flawed.defects)) := by
    rw [validate, hempty]
    rfl
  have hok : mixed.validate = .ok () :=
    validate_eq_ok_iff.2 (List.isEmpty_iff.1 (by decide +kernel))
  obtain ⟨-, hreport, -⟩ := validation_exact flawed
  obtain ⟨-, -, htranslate⟩ := validation_exact mixed
  obtain ⟨fs, -, horder, hmem, hvalidate⟩ := hreport (by rw [herror]; exact nofun)
  have htext := SolverError.invalidProblem.inj (Except.error.inj (herror.symm.trans hvalidate))
  refine ⟨⟨fs, horder, hmem, htext.symm.trans ?_⟩, hok, htranslate hok⟩
  decide +kernel

end Problem

end LinearProgram
