import LinearProgram.Proofs.Counting
import LinearProgram.Proofs.GeneratedNames
import LinearProgram.Proofs.Poisoning

/-! Models that were built and never loaded. Their variables tell what the columns of the backend
look like, and the objective that they keep is the one that the backend holds. -/

namespace LinearProgram

variable {α : Type}

theorem LinearRow.Within.hasColumn [Scalar α] {row : LinearRow α} {b : ServiceBackend α}
    (h : row.Within b.problem.columns.length) : ∀ t ∈ row.terms, b.hasColumn t.1 = true := by
  intro t ht
  obtain ⟨hpos, hle⟩ := h t (LinearRow.mem_terms.1 ht).1
  refine ServiceBackend.hasColumn_iff.2 ⟨hpos.ne', ?_⟩
  unfold ColumnId.offset
  omega

theorem LinearRow.Within.lt_of_mem_offsetTerms [Scalar α] {row : LinearRow α} {n : Nat}
    (h : row.Within n) : ∀ t ∈ row.offsetTerms, t.1 < n := by
  intro t ht
  obtain ⟨s, hs, rfl⟩ := List.mem_map.1 ht
  obtain ⟨hpos, hle⟩ := h s (LinearRow.mem_terms.1 hs).1
  show s.1.offset < n
  unfold ColumnId.offset
  omega

section Ones

variable [Scalar α]

/-- What is reached from zero by adding one, at least once. -/
inductive SumOfOnes : α → Prop
  | one : SumOfOnes (0 + 1)
  | add_one {a : α} (h : SumOfOnes a) : SumOfOnes (a + 1)

def LinearRow.OfOnes (row : LinearRow α) : Prop :=
  ∀ t ∈ row.entries, SumOfOnes t.2

theorem sumOfOnes_addTerm {ts : List (Term α)} (h : ∀ t ∈ ts, SumOfOnes t.2) (c : ColumnId) :
    ∀ t ∈ addTerm c 1 ts, SumOfOnes t.2 := by
  induction ts with
  | nil => exact List.forall_mem_singleton.2 .one
  | cons s ts ih =>
    obtain ⟨hs, hts⟩ := List.forall_mem_cons.1 h
    rw [addTerm]
    split
    · exact List.forall_mem_cons.2 ⟨.one, h⟩
    · split
      · exact List.forall_mem_cons.2 ⟨hs.add_one, hts⟩
      · exact List.forall_mem_cons.2 ⟨hs, ih hts⟩

theorem Registry.yields_sumRow (r : Registry α) {row : LinearRow α} (h : row.OfOnes)
    (vs : List Variable) : Yields LinearRow.OfOnes (r.sumRow row vs) := by
  induction vs generalizing row with
  | nil => exact yields_of_ok h
  | cons v vs ih => exact .after fun c => ih (sumOfOnes_addTerm h c)

/-- The counter goes where a generated name is, and an objective counts its variables. -/
def Plan.Counts (r : Registry α) : Plan α → Prop
  | column p => p.Counts r
  | relation .. => True
  | objective row => row.OfOnes

theorem Instruction.yields_plan (r : Registry α) (i : Instruction α) :
    Yields (Plan.Counts r) (i.plan r) := by
  have hempty : (LinearRow.empty : LinearRow α).OfOnes := List.forall_mem_nil _
  cases i with
  | make o d => exact (o.yields_draft r d).bind fun p hp => yields_of_ok hp
  | relate a b sense => exact .after fun _ => .after fun _ => yields_of_ok trivial
  | maximize v => exact (r.yields_sumRow hempty [v]).bind fun row h => yields_of_ok h
  | maximizeSum vs => exact (r.yields_sumRow hempty vs).bind fun row h => yields_of_ok h

end Ones

section Outcomes

variable [Scalar α] {m m' : Model α (ServiceBackend α)}

/-- The model with the variable, before a row ties it. -/
def Draft.place (p : Draft α) (m : Model α (ServiceBackend α)) : Model α (ServiceBackend α) :=
  { m with registry := { m.registry with anonymous := p.anonymous } }.grow p.info

/-- The model once the plan has gone through. -/
def Plan.outcome (m : Model α (ServiceBackend α)) : Plan α → Model α (ServiceBackend α)
  | column p => p.row.elim (p.place m) fun t => (p.place m).pushRow t.1 .equal t.2
  | relation a b sense =>
    (m.pushRow ((LinearRow.empty.add a 1).add b (-1)) sense 0).report (.addedConstraint a b sense)
  | objective row => m.maximized row

omit [Scalar α] in
theorem Model.InStep.count (h : m.InStep) (n : Nat) :
    { m with registry := { m.registry with anonymous := n } }.InStep :=
  ⟨h.entries, h.columns, h.rows⟩

theorem Model.InStep.place (h : m.InStep) (p : Draft α) : (p.place m).InStep :=
  (h.count p.anonymous).grow p.info

def emptyNameRefused (m : Model α (ServiceBackend α)) : BackendError :=
  .rejected (.emptyName m.registry.nextColumn)

/-- The model where the backend has taken the column of a variable but not its name. -/
def Draft.strand (p : Draft α) (m : Model α (ServiceBackend α)) : Model α (ServiceBackend α) :=
  { m with
    registry := { m.registry with anonymous := p.anonymous }
    backend := m.backend.addColumn
    columns := m.columns + 1 }.poison .setColumnName (emptyNameRefused m)

def Plan.answer (m : Model α (ServiceBackend α)) : Plan α → Answer α
  | column _ => .made m.newHandle
  | _ => .done

variable [Codec α]

theorem Draft.execute_of_name_eq {p : Draft α} (hn : p.info.name = "") :
    p.execute m = .error (.backend .setColumnName (emptyNameRefused m)) (p.strand m) := by
  obtain ⟨⟨name, d, constant, expression⟩, anonymous, row⟩ := p
  obtain rfl : name = "" := hn
  rfl

variable [ZeroIsNumber α]

theorem Draft.execute_of_name_ne (h : m.InStep) {p : Draft α} (hp : p.Sound m.registry)
    (hn : p.info.name ≠ "") :
    p.execute m = .ok m.newHandle ((Plan.column p).outcome m) := by
  have hrow := hp.row
  obtain ⟨info, n, row⟩ := p
  have hmake := Call.allocate_of_name_ne (h.count n) hp.domain hn
  cases row with
  | none => exact Call.bind_of_ok hmake
  | some t =>
    let placed := Draft.place ⟨info, n, some t⟩ m
    have hw : t.1.Within placed.backend.problem.columns.length := by
      rw [← (h.place _).entries]
      simpa [placed, Draft.place, Model.grow, Registry.insert] using hrow t rfl
    have htie : Call.emitRow t.1 .equal t.2 placed = .ok () (placed.pushRow t.1 .equal t.2) :=
      Call.emitRow_of_hasColumn hw.hasColumn .equal t.2
    exact (Call.bind_of_ok hmake).trans (Call.bind_of_ok htie)

theorem Plan.execute_of_sound (h : m.InStep) {p : Plan α} (hp : p.Sound m.registry)
    (hn : ∀ q, p = .column q → q.info.name ≠ "") : p.execute m = .ok (p.answer m) (p.outcome m) := by
  cases p with
  | column p => exact Call.bind_of_ok (Draft.execute_of_name_ne h hp (hn p rfl))
  | relation a b sense =>
    have hw := ((LinearRow.Within.empty (α := α) _).add hp.1 1).add hp.2 (-1)
    rw [h.entries] at hw
    exact Call.bind_of_ok (Call.emitRow_of_hasColumn hw.hasColumn sense 0)
  | objective row =>
    let b := m.backend.setMaximize
    have hw : row.Within b.problem.columns.length := h.entries ▸ hp
    have happly : b.apply (.setObjective row.terms) = .ok (b.setObjectiveTerms row.offsetTerms) := by
      rw [ServiceBackend.apply, ServiceBackend.offsets_eq hw.hasColumn]
      rfl
    exact Call.bind_of_ok (Call.send_of_ok (m := { m with backend := b }) happly)

theorem Plan.outcome_of_execute (h : m.InStep) {p : Plan α} (hp : p.Sound m.registry)
    {r : Answer α} (hx : p.execute m = .ok r m') : m' = p.outcome m := by
  by_cases hn : ∀ q, p = .column q → q.info.name ≠ ""
  · rw [execute_of_sound h hp hn] at hx
    exact (EStateM.Result.ok.inj hx).2.symm
  · simp only [not_forall, not_not] at hn
    obtain ⟨q, rfl, hn⟩ := hn
    have herror : (Plan.column q).execute m = .error _ _ :=
      Call.bind_of_error (Draft.execute_of_name_eq hn)
    rw [herror] at hx
    cases hx

/-- Where a building call succeeds, its plan has passed all checks and has gone through. -/
theorem Instruction.exists_plan (h : m.InStep) {i : Instruction α} {r : Answer α}
    (hx : i.call m = .ok r m') :
    ∃ p : Plan α, p.Sound m.registry ∧ p.Counts m.registry ∧ m' = p.outcome m := by
  rw [Call.instruction_eq] at hx
  have hchecks := m.checks_plan i
  cases hp : m.plan i with
  | error e =>
    rw [hp] at hx
    cases hx
  | ok p =>
    rw [hp] at hx hchecks
    have hcounts : Yields (Plan.Counts m.registry) (m.plan i) :=
      .after fun _ => i.yields_plan m.registry
    exact ⟨p, hchecks.2, hcounts p hp, p.outcome_of_execute h hchecks.2 hx⟩

omit [ZeroIsNumber α] in
theorem Instruction.exists_runs {i : Instruction α} {r : Answer α} (hx : i.call m = .ok r m') :
    ∃ e : Entry α, e.Runs m m' := by
  cases i with
  | make o d =>
    obtain ⟨x, _, ho, hr⟩ := Call.bind_eq_ok_iff.1 hx
    obtain ⟨-, rfl⟩ := Call.pure_eq_ok_iff.1 hr
    exact ⟨.made o d x, ho⟩
  | relate a b sense =>
    obtain ⟨_, _, ho, hr⟩ := Call.bind_eq_ok_iff.1 hx
    obtain ⟨-, rfl⟩ := Call.pure_eq_ok_iff.1 hr
    exact ⟨.related a b sense, ho⟩
  | maximize v =>
    obtain ⟨_, _, ho, hr⟩ := Call.bind_eq_ok_iff.1 hx
    obtain ⟨-, rfl⟩ := Call.pure_eq_ok_iff.1 hr
    exact ⟨.maximized [v], ho⟩
  | maximizeSum vs =>
    obtain ⟨_, _, ho, hr⟩ := Call.bind_eq_ok_iff.1 hx
    obtain ⟨-, rfl⟩ := Call.pure_eq_ok_iff.1 hr
    exact ⟨.maximized vs, ho⟩

omit [ZeroIsNumber α] in
theorem Entry.Runs.exists_call {e : Entry α} (h : e.Runs m m') :
    ∃ (i : Instruction α) (r : Answer α), i.call m = .ok r m' := by
  cases e with
  | made o d x => exact ⟨.make o d, _, Call.bind_of_ok h⟩
  | related a b sense => exact ⟨.relate a b sense, _, Call.bind_of_ok h⟩
  | maximized vs => exact ⟨.maximizeSum vs, _, Call.bind_of_ok h⟩

omit [ZeroIsNumber α] in
/-- A session of building calls that leaves its model usable comes to the calls that succeeded. -/
theorem Build.after {start : Model α (ServiceBackend α)} {ss : List (Step α)}
    (hb : Build start ss m) (is : List (Instruction α))
    (hp : (m.after (is.map .build)).poisoned = false) :
    ∃ ss, Build start ss (m.after (is.map .build)) := by
  induction is generalizing ss m with
  | nil => exact ⟨ss, hb⟩
  | cons i is ih =>
    rw [List.map_cons, Model.after_cons] at hp ⊢
    have hg : Call.Guarded (Action.build i).call m := i.guarded m
    rcases hg.cases with ⟨r, m', hc, -⟩ | ⟨e, m', hc, -, hpoisoned⟩ | ⟨e, hc, -⟩
    · obtain ⟨e, he⟩ := i.exists_runs hc
      rw [Action.after_of_ok hc] at hp ⊢
      exact ih (hb.call he) hp
    -- a refusal would have left the model poisoned to the end
    · rw [Action.after_of_error hc, Model.after_of_poisoned hpoisoned, hpoisoned] at hp
      cases hp
    · rw [Action.after_of_error hc] at hp ⊢
      exact ih hb hp

/-- What a model has that was built. -/
structure Model.Tidy (m : Model α (ServiceBackend α)) : Prop where
  inStep : m.InStep
  columns : m.backend.problem.columns = m.registry.entries.map fun e => e.domain.column e.name
  supported : ∀ e ∈ m.registry.entries, e.domain.isSupported = true
  counted : m.registry.Counted
  constraints : ∀ c ∈ m.backend.problem.constraints, ∀ t ∈ c.terms,
    t.1 < m.backend.problem.columns.length
  held : m.backend.problem.objective.terms = (m.objective.map LinearRow.offsetTerms).getD []
  within : ∀ row ∈ m.objective, row.Within m.backend.problem.columns.length
  ones : ∀ row ∈ m.objective, row.OfOnes
  unsolved : m.state = .unsolved

namespace Model.Tidy

omit [Codec α] [ZeroIsNumber α] in
theorem fresh (id : ModelId) (service : SolverService α) (config : Config α) (events : List Event) :
    (Model.fresh id service config events).Tidy where
  inStep := .fresh id service config events
  columns := rfl
  supported := List.forall_mem_nil _
  counted _ hpos hj := absurd hpos (Nat.not_lt_of_le hj)
  constraints := List.forall_mem_nil _
  held := rfl
  within _ := nofun
  ones _ := nofun
  unsolved := rfl

omit [Codec α] [ZeroIsNumber α] in
theorem place (h : m.Tidy) {p : Draft α} (hp : p.Sound m.registry) (hc : p.Counts m.registry) :
    (p.place m).Tidy := by
  have hle : m.backend.problem.columns.length ≤ (p.place m).backend.problem.columns.length := by
    simp [Draft.place, Model.grow, ServiceBackend.pushColumn]
  exact {
    inStep := h.inStep.place p
    columns := by
      simp [Draft.place, Model.grow, ServiceBackend.pushColumn, Registry.insert, h.columns]
    supported := List.forall_mem_append.2 ⟨h.supported, List.forall_mem_singleton.2 hp.domain⟩
    counted := h.counted.register hc
    constraints := fun c hm t ht => Nat.lt_of_lt_of_le (h.constraints c hm t ht) hle
    held := h.held
    within := fun row hr => (h.within row hr).mono hle
    ones := h.ones
    unsolved := h.unsolved }

omit [Codec α] [ZeroIsNumber α] in
theorem pushRow (h : m.Tidy) {row : LinearRow α} (hw : row.Within m.backend.problem.columns.length)
    (sense : Sense) (bound : α) : (m.pushRow row sense bound).Tidy where
  inStep := h.inStep.pushRow row sense bound
  columns := h.columns
  supported := h.supported
  counted := h.counted
  constraints := List.forall_mem_append.2
    ⟨h.constraints, List.forall_mem_singleton.2 hw.lt_of_mem_offsetTerms⟩
  held := h.held
  within := h.within
  ones := h.ones
  unsolved := h.unsolved

omit [Codec α] [ZeroIsNumber α] in
theorem outcome (h : m.Tidy) {p : Plan α} (hp : p.Sound m.registry) (hc : p.Counts m.registry) :
    (p.outcome m).Tidy := by
  cases p with
  | column p =>
    have hplaced := h.place hp hc
    have hrow := hp.row
    rw [Plan.outcome]
    cases hr : p.row with
    | none => exact hplaced
    | some t =>
      refine hplaced.pushRow ?_ _ _
      rw [← hplaced.inStep.entries]
      simpa [Draft.place, Model.grow, Registry.insert] using hrow t hr
  | relation a b sense =>
    have hw := ((LinearRow.Within.empty (α := α) _).add hp.1 1).add hp.2 (-1)
    rw [h.inStep.entries] at hw
    have hpushed := h.pushRow hw sense 0
    exact ⟨⟨hpushed.inStep.entries, hpushed.inStep.columns, hpushed.inStep.rows⟩, hpushed.columns,
      hpushed.supported, hpushed.counted, hpushed.constraints, hpushed.held, hpushed.within,
      hpushed.ones, hpushed.unsolved⟩
  | objective row =>
    have hw : row.Within m.backend.problem.columns.length := h.inStep.entries ▸ hp
    exact ⟨⟨h.inStep.entries, h.inStep.columns, h.inStep.rows⟩, h.columns, h.supported, h.counted,
      h.constraints, rfl, fun _ hr => Option.some.inj hr ▸ hw, fun _ hr => Option.some.inj hr ▸ hc,
      h.unsolved⟩

end Model.Tidy

theorem Build.tidy {id : ModelId} {service : SolverService α} {config : Config α}
    {events : List Event} {ss : List (Step α)}
    (hb : Build (Model.fresh id service config events) ss m) : m.Tidy := by
  induction hb with
  | new => exact .fresh id service config events
  | call hb hr ih =>
    obtain ⟨i, r, hc⟩ := hr.exists_call
    obtain ⟨p, hs, hcounts, rfl⟩ := i.exists_plan ih.inStep hc
    exact ih.outcome hs hcounts

end Outcomes

end LinearProgram
