import LinearProgram.Proofs.BufferedCalls
import LinearProgram.Proofs.DirectiveTrace

/-! The books of a model over the buffering backend: its counters, and the variables that it gives
out. They are kept through every call, whether it succeeds, is turned away or is cut short. -/

namespace LinearProgram

variable {α : Type}

/-- The rows and columns that the call brings. -/
def Instruction.growth : Instruction α → Snapshot
  | make o _ => ⟨if o.isFree then 0 else 1, 1⟩
  | relate .. => ⟨1, 0⟩
  | maximize _ | maximizeSum _ => ⟨0, 0⟩

/-- A call that was cut short after its column had been added: the backend refused the empty
name. -/
def strands : Action α × Except (ModelError α) (Answer α) → Bool
  | (.build (.make o _), .error (.backend ..)) => o.name? = some ""
  | _ => false

/-- What a call adds, by its answer. -/
def growth : Action α × Except (ModelError α) (Answer α) → Snapshot
  | (.build i, .ok _) => i.growth
  | c => ⟨0, if strands c then 1 else 0⟩

theorem strands_of_check {a : Action α} {e : ModelError α} (h : ¬ e.IsRefusal) :
    strands (a, .error e) = false := by
  unfold strands
  split
  · rename_i hc
    obtain ⟨-, he⟩ := Prod.mk.inj hc
    exact (h (Except.error.inj he ▸ trivial)).elim
  · rfl

@[reducible]
def Codec.reading (q : Problem Rat) : Codec Rat where
  encode _ _ := .error .io
  decode _ _ := .ok q

namespace Model

variable {m m' : Model α (ServiceBackend α)}

/-- The counters count what the backend holds, and while the model is of use every column has its
variable. -/
structure Balanced (m : Model α (ServiceBackend α)) : Prop where
  rows : m.rows = m.backend.problem.constraints.length
  columns : m.columns = m.backend.problem.columns.length
  entries : m.poisoned = false → m.registry.entries.length = m.columns

theorem InStep.balanced (h : m.InStep) : m.Balanced :=
  ⟨h.rows, h.columns, fun _ => h.entries.trans h.columns.symm⟩

theorem Balanced.of_poisoned (hp : m.poisoned = true)
    (hr : m.rows = m.backend.problem.constraints.length)
    (hc : m.columns = m.backend.problem.columns.length) : m.Balanced :=
  ⟨hr, hc, fun h => Bool.noConfusion (hp.symm.trans h)⟩

theorem Balanced.inStep (h : m.Balanced) (hp : m.poisoned = false) : m.InStep :=
  ⟨(h.entries hp).trans h.columns, h.columns, h.rows⟩

theorem number_handles (m : Model α (ServiceBackend α)) :
    m.handles.map (·.column.number) = List.range' 1 m.registry.entries.length := by
  simp [handles, Registry.handles, Registry.handle, ColumnId.ofOffset, List.range'_eq_map_range,
    Nat.add_comm, Function.comp_def]

variable [Scalar α]

theorem InStep.outcome (h : m.InStep) (p : Plan α) : (p.outcome m).InStep := by
  cases p with
  | column p =>
    have hplaced := h.place p
    rw [Plan.outcome]
    cases p.row with
    | none => exact hplaced
    | some t => exact hplaced.pushRow t.1 .equal t.2
  | relation a b sense =>
    have hpushed := h.pushRow ((LinearRow.empty.add a 1).add b (-1)) sense 0
    exact ⟨hpushed.entries, hpushed.columns, hpushed.rows⟩
  | objective row => exact ⟨h.entries, h.columns, h.rows⟩

theorem snapshot_outcome {i : Instruction α} {p : Plan α} (h : p.Fits m.registry i) :
    (p.outcome m).snapshot = ⟨m.rows + i.growth.rows, m.columns + i.growth.columns⟩ := by
  cases p with
  | column p =>
    cases i with
    | make o d =>
      have hrow := h.row
      rw [Plan.outcome]
      cases hp : p.row with
      | none =>
        have ho : o.isFree = true := by simpa [hp] using hrow
        simp [Instruction.growth, ho, snapshot, Draft.place, grow]
      | some t =>
        have ho : o.isFree = false := by simpa [hp] using hrow
        simp [Instruction.growth, ho, snapshot, Draft.place, grow, pushRow]
    | _ => exact h.elim
  | relation a b sense =>
    cases i with
    | relate => rfl
    | _ => exact h.elim
  | objective row =>
    cases i with
    | maximize | maximizeSum => rfl
    | _ => exact h.elim

variable [Codec α] {a : Action α} {r : Except (ModelError α) (Answer α)}

theorem Moves.balanced (hm : m.Moves a r m') (h : m.Balanced) : m'.Balanced := by
  cases hm with
  | turnedAway | unsaved | asked => exact h
  | built isOpen _ _ _ => exact ((h.inStep isOpen.1).outcome _).balanced
  | stranded =>
    refine .of_poisoned rfl h.rows ?_
    simp [Draft.strand, poison, report, ServiceBackend.addColumn, h.columns]
  | solved | saved => exact ⟨h.rows, h.columns, h.entries⟩
  | unsolved | unloaded => exact .of_poisoned rfl h.rows h.columns
  | loaded => exact ⟨rfl, rfl, fun _ => List.length_map _⟩

theorem Moves.snapshot_eq (hm : m.Moves a r m') (hr : loads (a, r) = false) :
    m'.snapshot = ⟨m.rows + (growth (a, r)).rows, m.columns + (growth (a, r)).columns⟩ := by
  cases hm with
  | turnedAway check => simp [growth, strands_of_check check, snapshot]
  | built _ plan _ _ => exact snapshot_outcome (fits_of_plan plan)
  | stranded _ _ name =>
    simp [growth, strands, name, snapshot, Draft.strand, poison, report]
  | loaded => cases hr
  | solved | unsolved | saved | unsaved | unloaded | asked => rfl

theorem Moves.poisoned_of_strands (hm : m.Moves a r m') (hs : strands (a, r) = true) :
    m'.poisoned = true := by
  cases hm with
  | turnedAway check =>
    rw [strands_of_check check] at hs
    cases hs
  | stranded => rfl
  | _ => simp [strands] at hs

variable [ZeroIsNumber α]

theorem Balanced.after (h : m.Balanced) (as : List (Action α)) : (m.after as).Balanced := by
  induction as generalizing m with
  | nil => exact h
  | cons a as ih => exact ih ((moves h.inStep a).balanced h)

theorem Balanced.counts_after (h : m.Balanced) {as : List (Action α)}
    (has : ∀ c ∈ m.history as, loads c = false) :
    (m.after as).rows = m.rows + ((m.history as).map fun c => (growth c).rows).sum ∧
      (m.after as).columns =
        m.columns + ((m.history as).map fun c => (growth c).columns).sum := by
  induction as generalizing m with
  | nil => exact ⟨rfl, rfl⟩
  | cons a as ih =>
    obtain ⟨ha, has⟩ := List.forall_mem_cons.1 has
    have hmoves := moves h.inStep a
    have hstep := hmoves.snapshot_eq ha
    have hrows := congrArg Snapshot.rows hstep
    have hcolumns := congrArg Snapshot.columns hstep
    obtain ⟨hrest, hrest'⟩ := ih (hmoves.balanced h) has
    simp only [snapshot] at hrows hcolumns
    simp only [after_cons, history, List.map_cons, List.sum_cons]
    omega

theorem Balanced.poisoned_after (h : m.Balanced) {as : List (Action α)}
    (hs : ∃ c ∈ m.history as, strands c = true) : (m.after as).poisoned = true := by
  induction as generalizing m with
  | nil =>
    obtain ⟨c, hc, -⟩ := hs
    exact absurd hc List.not_mem_nil
  | cons a as ih =>
    have hmoves := moves h.inStep a
    rw [history, List.exists_mem_cons_iff] at hs
    rw [after_cons]
    rcases hs with hs | hs
    · have hp := hmoves.poisoned_of_strands hs
      rw [after_of_poisoned hp, hp]
    · exact ih (hmoves.balanced h) hs

/-- In every session the books agree with the backend. Since the last load every call has added
what its kind says if it succeeded and nothing if it failed, up to a call that was cut short at the
empty name: its column stays, in a model that is poisoned. -/
theorem books_agree (id : ModelId) (service : SolverService α) (config : Config α)
    (events : List Event) (as : List (Action α)) :
    let m := (Model.fresh id service config events).after as
    m.rows = m.backend.problem.constraints.length ∧
      m.columns = m.backend.problem.columns.length ∧
      m.verify m.snapshot = .ok () ∧
      (m.poisoned = false → m.handles.map (·.column.number) = List.range' 1 m.columns) ∧
      ∀ bs : List (Action α), (∀ c ∈ m.history bs, loads c = false) →
        (m.after bs).rows = m.rows + ((m.history bs).map fun c => (growth c).rows).sum ∧
        (m.after bs).columns =
          m.columns + ((m.history bs).map fun c => (growth c).columns).sum ∧
        ((∃ c ∈ m.history bs, strands c = true) → (m.after bs).poisoned = true) := by
  intro m
  have hm : m.Balanced := (InStep.fresh id service config events).balanced.after as
  refine ⟨hm.rows, hm.columns, ?_, fun hp => ?_, fun bs hbs => ?_⟩
  · have hs : m.snapshot = ⟨Backend.rowCount m.backend, Backend.columnCount m.backend⟩ := by
      rw [snapshot, hm.rows, hm.columns]
      rfl
    rw [verify, if_pos hs]
  · rw [number_handles, hm.entries hp]
  · obtain ⟨hrows, hcolumns⟩ := hm.counts_after hbs
    exact ⟨hrows, hcolumns, hm.poisoned_after⟩

def filed : Problem Rat where
  constraints := [⟨.lessEqual, [(0, 1)], 4, "limit"⟩]
  columns := [Column.integer "kept"]

/-- A variable is made, and then forgotten for what is read from a file. -/
def opening : List (Action Rat) :=
  [.build (.make (.create "x") .anyReal),
    .load "kept.json" { entries := [(["kept.json"], .empty)] }]

/-- All that adds something, and at last the empty name. -/
def working : List (Action Rat) :=
  let kept : Variable := ⟨⟨0⟩, 1, ⟨1⟩⟩
  [.build (.make .createAnonymous .nonNegativeReal), .build (.make (.sum kept kept) .anyReal),
    .build (.relate kept kept .equal), .build (.maximize kept), .save "kept.json" {},
    .build (.make (.create "") .anyReal)]

theorem books_agree_filed :
    let _ := Codec.reading filed
    let m := (Model.fresh ⟨0⟩ ({} : Script Rat).service {} []).after opening
    m.poisoned = false ∧ m.handles.map (·.column.number) = [1] ∧
      (∀ c ∈ m.history working, loads c = false) ∧ (m.after working).poisoned = true ∧
      (m.after working).rows = 1 + 2 ∧ (m.after working).columns = 1 + 3 := by
  intro _ m
  obtain ⟨-, hcolumns, -, hhandles, hafter⟩ :=
    books_agree ⟨0⟩ ({} : Script Rat).service {} [] opening
  have hp : m.poisoned = false := by decide +kernel
  have hloads : ∀ c ∈ m.history working, loads c = false := by decide +kernel
  have hstrands : ∃ c ∈ m.history working, strands c = true := by decide +kernel
  obtain ⟨hr, hc, hpoisoned⟩ := hafter working hloads
  have hheld : m.columns = 1 := by decide +kernel
  have hrows : m.rows + ((m.history working).map fun c => (growth c).rows).sum = 1 + 2 := by
    decide +kernel
  have hgrown : m.columns + ((m.history working).map fun c => (growth c).columns).sum = 1 + 3 := by
    decide +kernel
  refine ⟨hp, ?_, hloads, hpoisoned hstrands, hr.trans hrows, hc.trans hgrown⟩
  rw [hhandles hp, show ((Model.fresh ⟨0⟩ _ {} []).after opening).columns = 1 from hheld]
  rfl

/-- A call that fails may still leave a column behind. -/
theorem column_left_by_empty_name :
    let m := Build.newModel 0
    let create : Action Float := .build (.make (.create "") .anyReal)
    create.answer m = .error (.backend .setColumnName (.rejected (.emptyName ⟨1⟩))) ∧
      m.snapshot = ⟨0, 0⟩ ∧ (create.after m).snapshot = ⟨0, 1⟩ :=
  ⟨rfl, rfl, rfl⟩

end Model

end LinearProgram
