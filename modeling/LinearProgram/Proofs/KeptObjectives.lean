import LinearProgram.Proofs.Bookkeeping
import LinearProgram.Proofs.RowCoefficients

/-! The two objectives of a model: the row that it keeps itself, and the terms that its backend
holds. Only the calls that maximize and the loads write either, and they write both. -/

namespace LinearProgram

section Goals

variable {α : Type}

/-- The variables whose sum the call makes the objective. -/
def Action.goal? : Action α → Option (List Variable)
  | build (.maximize v) => some [v]
  | build (.maximizeSum vs) => some vs
  | _ => none

/-- The objective is over columns that are there. -/
def Problem.ObjectiveWithin (q : Problem α) : Prop :=
  ∀ t ∈ q.objective.terms, t.1 < q.columns.length

/-- What the call would load, if anything, has its objective over columns that are there. -/
def Action.FindsObjective [Codec α] (a : Action α) : Prop :=
  ∀ path files, a = .load path files →
    ∀ (q : Problem α) (reported : List Event),
      Problem.load path files = .ok (q, reported) → q.ObjectiveWithin

/-- The coefficient of a column in the row that the model keeps. -/
def Model.objectiveCoefficient {β : Type} [Scalar α] (m : Model α β) (c : ColumnId) : α :=
  (m.objective.map fun row => row.coefficient c).getD 0

end Goals

namespace Model

section Changes

variable {α : Type} [Scalar α] [Codec α] {m m' : Model α (ServiceBackend α)} {a : Action α}
  {r : Except (ModelError α) (Answer α)}

/-- Neither of the two objectives has changed. -/
def KeepsObjectives (m m' : Model α (ServiceBackend α)) : Prop :=
  m'.objective = m.objective ∧ m'.backend.problem.objective = m.backend.problem.objective

omit [Scalar α] [Codec α] in
theorem keepsObjectives_refl (m : Model α (ServiceBackend α)) : m.KeepsObjectives m :=
  ⟨rfl, rfl⟩

omit [Codec α] in
theorem keepsObjectives_column (p : Draft α) : m.KeepsObjectives ((Plan.column p).outcome m) := by
  rw [Plan.outcome]
  cases p.row with
  | none => exact ⟨rfl, rfl⟩
  | some t => exact ⟨rfl, rfl⟩

/-- A call that neither maximizes nor loads, and any call that fails, keeps both. -/
theorem Moves.keepsObjectives (hm : m.Moves a r m') (hr : loads (a, r) = false)
    (ha : a.goal? = none ∨ ∃ e, r = .error e) : m.KeepsObjectives m' := by
  cases hm with
  | turnedAway | unsaved | asked => exact m.keepsObjectives_refl
  | @built i p isOpen plan sound call =>
    have hgoal : (Action.build i).goal? = none := ha.resolve_right nofun
    have hfits := fits_of_plan plan
    cases p with
    | column p => exact keepsObjectives_column p
    | relation a b sense => exact ⟨rfl, rfl⟩
    | objective row =>
      cases i with
      | make | relate => exact hfits.elim
      | maximize | maximizeSum => cases hgoal
  | stranded | solved | unsolved | saved | unloaded => exact ⟨rfl, rfl⟩
  | loaded => cases hr

theorem exists_of_goal {i : Instruction α} {vs : List Variable} {x : Answer α}
    (hi : (Action.build i).goal? = some vs) (hx : i.call m = .ok x m') :
    ∃ u, Call.maximizeSum vs m = .ok u m' := by
  cases i with
  | make | relate => cases hi
  | maximize v | maximizeSum ws =>
    cases hi
    obtain ⟨u, _, hu, hr⟩ := Call.bind_eq_ok_iff.1 hx
    obtain ⟨-, rfl⟩ := Call.pure_eq_ok_iff.1 hr
    exact ⟨u, hu⟩

/-- A call that maximizes leaves the row that counts its variables. -/
theorem Moves.eq_maximized {vs : List Variable} {x : Answer α} (hm : m.Moves a (.ok x) m')
    (h : m.Balanced) (ha : a.goal? = some vs) :
    m.Open ∧ m' = m.maximized (LinearRow.empty.ofVariables vs) ∧
      (LinearRow.empty.ofVariables vs : LinearRow α).Within m.backend.problem.columns.length := by
  cases hm with
  | built isOpen plan sound call =>
    have hstep := h.inStep isOpen.1
    obtain ⟨u, hu⟩ := exists_of_goal ha call
    obtain ⟨-, hvs, heq⟩ := (Call.maximizeSum_eq_ok_iff hstep).1 hu
    refine ⟨isOpen, heq.symm, fun t ht => ?_⟩
    have hcov := m.covers_empty.ofVariables fun v hv => hstep.hasColumn (hvs v hv)
    obtain ⟨hpos, hlt⟩ := ServiceBackend.hasColumn_iff.1 (hcov t ht)
    unfold ColumnId.offset at hlt
    omega
  | solved | saved | loaded | asked => cases ha

end Changes

section Agreement

variable [Codec Rat] {m m' : Model Rat (ServiceBackend Rat)} {a : Action Rat}
  {r : Except (ModelError Rat) (Answer Rat)}

/-- On every column, the row of the model and the terms of the backend come to the same. -/
def ObjectivesAgree (m : Model Rat (ServiceBackend Rat)) : Prop :=
  ∀ i, m.objectiveCoefficient (.ofOffset i) = m.backend.problem.objective.coefficient i

omit [Codec Rat] in
theorem KeepsObjectives.agree (hk : m.KeepsObjectives m') (h : m.ObjectivesAgree) :
    m'.ObjectivesAgree := by
  intro i
  rw [objectiveCoefficient, hk.1, hk.2]
  exact h i

omit [Codec Rat] in
theorem coefficient_maximized {row : LinearRow Rat} {n : Nat} (h : row.Within n) (i : Nat) :
    (m.maximized row).backend.problem.objective.coefficient i = row.coefficient (.ofOffset i) := by
  rw [Objective.coefficient_eq]
  exact h.total_offsetTerms i

theorem objectiveCoefficient_restoredFrom (m : Model Rat (ServiceBackend Rat)) (q : Problem Rat)
    (c : ColumnId) :
    (m.restoredFrom q).objectiveCoefficient c =
      total (q.objective.terms.map fun t => ((m.backend.holding q).columnId t.1, t.2)) c := by
  let ts := q.objective.terms.map fun t => ((m.backend.holding q).columnId t.1, t.2)
  show ((if ts.isEmpty then none else some (LinearRow.ofTerms ts)).map _).getD 0 = total ts c
  by_cases h : ts.isEmpty = true
  · rw [if_pos h, List.isEmpty_iff.1 h]
    rfl
  · rw [if_neg h]
    exact LinearRow.coefficient_ofTerms ts c

/-- The terms of a file are folded into one row, be they unsorted, repeated or zero. -/
theorem agree_restoredFrom (m : Model Rat (ServiceBackend Rat)) {q : Problem Rat}
    (hq : q.ObjectiveWithin) : (m.restoredFrom q).ObjectivesAgree := by
  intro i
  have hcolumns : (q.objective.terms.map fun t => ((m.backend.holding q).columnId t.1, t.2)) =
      q.objective.terms.map fun t => (ColumnId.ofOffset t.1, t.2) :=
    List.map_congr_left fun t ht => by
      have hlt : t.1 < (m.backend.holding q).problem.columns.length := hq t ht
      rw [ServiceBackend.columnId, if_pos hlt]
  have hoffsets : ∀ t ∈ q.objective.terms, ColumnId.ofOffset t.1 = .ofOffset i → t.1 = i :=
    fun t _ h => congrArg ColumnId.offset h
  rw [objectiveCoefficient_restoredFrom, hcolumns, total_map hoffsets]
  exact (q.objective.coefficient_eq i).symm

theorem Moves.agree (hm : m.Moves a r m') (h : m.Balanced) (hf : a.FindsObjective)
    (ha : m.ObjectivesAgree) : m'.ObjectivesAgree := by
  cases hm with
  | @built i p isOpen plan sound call =>
    have hmoves : m.Moves (.build i) (.ok (p.answer m)) (p.outcome m) :=
      .built isOpen plan sound call
    cases hg : (Action.build i).goal? with
    | none =>
      have hl : loads (.build i, .ok (p.answer m)) = false := by cases p <;> rfl
      exact (hmoves.keepsObjectives hl (.inl hg)).agree ha
    | some vs =>
      obtain ⟨-, heq, hw⟩ := hmoves.eq_maximized h hg
      rw [heq]
      exact fun i => (coefficient_maximized hw i).symm
  | loaded usable file => exact m.agree_restoredFrom (hf _ _ rfl _ _ file)
  | turnedAway | stranded | solved | unsolved | saved | unsaved | unloaded | asked => exact ha

theorem agree_after (h : m.Balanced) (ha : m.ObjectivesAgree) {as : List (Action Rat)}
    (has : ∀ a ∈ as, a.FindsObjective) : (m.after as).ObjectivesAgree := by
  induction as generalizing m with
  | nil => exact ha
  | cons a as ih =>
    obtain ⟨hf, has⟩ := List.forall_mem_cons.1 has
    have hmoves := moves h.inStep a
    exact ih (hmoves.balanced h) (hmoves.agree h hf ha) has

/-- In every session whose files have their objectives over columns that are there, the row of the
model and the terms of the backend agree on every column. A call that maximizes a sum makes both
of them count its variables, whatever was there before, and nothing but a successful call that
maximizes or loads changes either. -/
theorem objectives_agree (id : ModelId) (service : SolverService Rat) (config : Config Rat)
    (events : List Event) (as : List (Action Rat)) :
    let m := (Model.fresh id service config events).after as
    ((∀ a ∈ as, a.FindsObjective) → ∀ i, m.objectiveCoefficient (.ofOffset i) =
      m.backend.problem.objective.coefficient i) ∧
    (∀ (a : Action Rat) (vs : List Variable) (x : Answer Rat),
      a.goal? = some vs → a.answer m = .ok x →
      (a.after m).poisoned = false ∧
      (a.after m).backend.problem.objective.direction = .maximize ∧
      ∀ i, (a.after m).objectiveCoefficient (.ofOffset i) =
          (vs.map (·.column)).count (.ofOffset i) ∧
        (a.after m).backend.problem.objective.coefficient i =
          (vs.map (·.column)).count (.ofOffset i)) ∧
    ∀ a : Action Rat, loads (a, a.answer m) = false →
      (a.goal? = none ∨ ∃ e, a.answer m = .error e) →
      (a.after m).objective = m.objective ∧
      (a.after m).backend.problem.objective = m.backend.problem.objective := by
  intro m
  have hfresh := (InStep.fresh id service config events).balanced
  have hm : m.Balanced := hfresh.after as
  refine ⟨agree_after hfresh fun i => rfl, fun a vs x hg hx => ?_, fun a hl ha => ?_⟩
  · have hmoves := moves hm.inStep a
    rw [hx] at hmoves
    obtain ⟨isOpen, heq, hw⟩ := hmoves.eq_maximized hm hg
    have hrow (i : Nat) := LinearRow.coefficient_ofVariables vs (.ofOffset i)
    rw [heq]
    exact ⟨isOpen.1, rfl, fun i => ⟨hrow i, (coefficient_maximized hw i).trans (hrow i)⟩⟩
  · exact (moves hm.inStep a).keepsObjectives hl ha

/-- Terms out of order, on one column twice, and with a zero. -/
def scattered : Problem Rat where
  objective.terms := [(1, 2), (0, 5), (1, -3), (0, 0)]
  columns := [Column.integer "x", Column.integer "y"]

omit [Codec Rat] in
theorem objectives_agree_scattered :
    let _ := Codec.reading scattered
    let files : Files := { entries := [(["x.json"], .empty)] }
    let x : Variable := ⟨⟨0⟩, 1, ⟨1⟩⟩
    let y : Variable := ⟨⟨0⟩, 1, ⟨2⟩⟩
    let m := (Model.fresh ⟨0⟩ ({} : Script Rat).service {} []).after [.load "x.json" files]
    let goal : Action Rat := .build (.maximizeSum [y, x, y])
    let relation : Action Rat := .build (.relate x y .equal)
    m.objectiveCoefficient ⟨2⟩ = -1 ∧ m.backend.problem.objective.coefficient 1 = -1 ∧
      (goal.after m).objectiveCoefficient ⟨2⟩ = 2 ∧
      (goal.after m).backend.problem.objective.coefficient 1 = 2 ∧
      (relation.after m).backend.problem.objective = m.backend.problem.objective := by
  intro _ files x y m goal relation
  obtain ⟨hagree, hgoal, hkeep⟩ :=
    objectives_agree ⟨0⟩ ({} : Script Rat).service {} [] [.load "x.json" files]
  have hfinds : ∀ a ∈ [(Action.load "x.json" files : Action Rat)], a.FindsObjective := by
    rintro a - path files' - q reported hq
    obtain ⟨text, -, hd⟩ := Problem.exists_of_load hq
    cases hd
    show ∀ t ∈ scattered.objective.terms, t.1 < scattered.columns.length
    decide +kernel
  have hfile : m.objectiveCoefficient ⟨2⟩ = m.backend.problem.objective.coefficient 1 :=
    hagree hfinds 1
  have hheld : m.backend.problem.objective.coefficient 1 = -1 := by decide +kernel
  have hgranted : (goal.answer m).toOption.isSome = true := by decide +kernel
  obtain ⟨answer, hanswer⟩ := Option.isSome_iff_exists.1 hgranted
  obtain ⟨-, -, hcounts⟩ :=
    hgoal goal [y, x, y] answer rfl (Mps.eq_ok_of_mem_toOption hanswer)
  obtain ⟨hrow, hterms⟩ := hcounts 1
  have hloads : loads (relation, relation.answer m) = false := by decide +kernel
  exact ⟨hfile.trans hheld, hheld, hrow, hterms, (hkeep relation hloads (.inl rfl)).2⟩

end Agreement

end Model

end LinearProgram
