import LinearProgram.Proofs.BuiltModels
import LinearProgram.Proofs.Resemblance

/-! Two models over buffering backends of their own that look the same from outside. Whatever is
called on both, they stay so: they give the same answers and tell their backends the same. -/

namespace LinearProgram

open Call

variable {α : Type}

def Answer.column? : Answer α → Option ColumnId
  | made v => some v.column
  | _ => none

section Buffers

/-- What decides whether a directive is refused. -/
structure ServiceBackend.SameSize (b b' : ServiceBackend α) : Prop where
  columns : b.problem.columns.length = b'.problem.columns.length
  constraints : b.problem.constraints.length = b'.problem.constraints.length

namespace ServiceBackend.SameSize

variable {b b' : ServiceBackend α}

theorem hasColumn_eq (h : b.SameSize b') (c : ColumnId) : b.hasColumn c = b'.hasColumn c := by
  rw [hasColumn, hasColumn, h.columns]

theorem offsets_eq (h : b.SameSize b') (ts : List (Term α)) : b.offsets ts = b'.offsets ts := by
  induction ts with
  | nil => rfl
  | cons t ts ih => rw [offsets, offsets, h.hasColumn_eq, ih]

theorem concur_modifyColumn (h : b.SameSize b') (c : ColumnId) (f : Column α → Column α) :
    Concur SameSize (b.modifyColumn c f) (b'.modifyColumn c f) := by
  unfold modifyColumn
  rw [h.hasColumn_eq]
  split
  · exact ⟨by simp [h.columns], h.constraints⟩
  · rfl

variable [Scalar α]

theorem concur_apply (h : b.SameSize b') (d : Directive α) :
    Concur SameSize (b.apply d) (b'.apply d) := by
  cases d with
  | addColumn => exact ⟨by simp [addColumn, h.columns], h.constraints⟩
  | setColumnName c name =>
    simp only [apply]
    split
    · rfl
    · exact h.concur_modifyColumn c _
  | setInteger c integer => exact h.concur_modifyColumn c _
  | setBinary c => exact h.concur_modifyColumn c _
  | setBounds c lower upper =>
    simp only [apply]
    split
    · exact h.concur_modifyColumn c _
    · rfl
  | addRow terms sense bound =>
    simp only [apply, h.offsets_eq]
    cases b'.offsets terms with
    | ok ts => exact ⟨h.columns, by simp [addConstraint, h.constraints]⟩
    | error e => rfl
  | setObjective terms =>
    simp only [apply, h.offsets_eq]
    cases b'.offsets terms with
    | ok ts => exact ⟨h.columns, h.constraints⟩
    | error e => rfl

end ServiceBackend.SameSize

end Buffers

section Models

variable [Scalar α]

def Model.objectiveTerms {β : Type} (m : Model α β) : List (Term α) :=
  (m.objective.map LinearRow.terms).getD []

/-- Two models that nothing but values known beforehand can tell apart. -/
structure Model.Resembles {β β' : Type} [Backend α β] [Backend α β'] (m : Model α β)
    (n : Model α β') : Prop where
  entries : m.registry.Alike n.registry
  rows : m.rows = n.rows
  columns : m.columns = n.columns
  heldRows : Backend.rowCount m.backend = Backend.rowCount n.backend
  heldColumns : Backend.columnCount m.backend = Backend.columnCount n.backend
  objective : m.objectiveTerms = n.objectiveTerms
  state : m.state = n.state
  poisoned : m.poisoned = n.poisoned

variable [Codec α]

/-- Twins look the same, and their backends have been told the same. -/
structure Twins (m n : Model α (Logged α (ServiceBackend α))) : Prop extends m.Resembles n where
  log : m.backend.log = n.backend.log

namespace Twins

variable {m n : Model α (Logged α (ServiceBackend α))}

theorem sameSize (h : Twins m n) : m.backend.backend.SameSize n.backend.backend :=
  ⟨h.heldColumns, h.heldRows⟩

theorem agree_send (h : Twins m n) (d : Directive α) :
    Agree (send d) (send d)
      (fun _ _ m' n' => Twins m' n' ∧ m'.registry = m.registry ∧ n'.registry = n.registry)
      (fun m' n' => Twins m' n' ∧ m'.poisoned = true) m n := by
  have hc := h.sameSize.concur_apply d
  cases hm : m.backend.backend.apply d with
  | ok b =>
    cases hn : n.backend.backend.apply d with
    | ok b' =>
      rw [hm, hn] at hc
      have hb : Backend.send d m.backend.backend = .ok () b :=
        Request.step_of_ok (by rw [hm]; rfl)
      have hb' : Backend.send d n.backend.backend = .ok () b' :=
        Request.step_of_ok (by rw [hn]; rfl)
      refine agree_of_ok (request_of_ok (Logged.request_of_ok hb))
        (request_of_ok (Logged.request_of_ok hb')) ⟨?_, rfl, rfl⟩
      exact { h with heldRows := hc.constraints, heldColumns := hc.columns, log := by rw [h.log] }
    | error e =>
      rw [hm, hn] at hc
      exact hc.elim
  | error e =>
    cases hn : n.backend.backend.apply d with
    | ok b' =>
      rw [hm, hn] at hc
      exact hc.elim
    | error e' =>
      rw [hm, hn] at hc
      obtain rfl : e = e' := hc
      have hb : Backend.send d m.backend.backend = .error e _ :=
        Request.step_of_error (by rw [hm]; rfl)
      have hb' : Backend.send d n.backend.backend = .error e _ :=
        Request.step_of_error (by rw [hn]; rfl)
      refine agree_of_error (request_of_error (Logged.request_of_error hb))
        (request_of_error (Logged.request_of_error hb')) ⟨?_, rfl⟩
      exact { h with poisoned := rfl, log := by rw [h.log]; rfl }

end Twins

def TwinsWith (r r' : Registry α) (m n : Model α (Logged α (ServiceBackend α))) : Prop :=
  Twins m n ∧ m.registry = r ∧ n.registry = r'

theorem simulation_twins {r r' : Registry α} (h : r.Alike r') :
    Simulation (TwinsWith r r') fun m n => Twins m n ∧ m.poisoned = true where
  send := by
    rintro d m n ⟨ht, rfl, rfl⟩
    exact ht.agree_send d
  setMaximize := by
    rintro m n ⟨ht, rfl, rfl⟩
    exact ⟨{ ht with log := congrArg (· ++ [(.setMaximize, true)]) ht.log }, rfl, rfl⟩
  report := by
    rintro e m n ⟨ht, rfl, rfl⟩
    exact ⟨{ ht with }, rfl, rfl⟩
  column := by
    rintro m n ⟨ht, rfl, rfl⟩
    exact ⟨{ ht with columns := congrArg (· + 1) ht.columns }, rfl, rfl⟩
  row := by
    rintro m n ⟨ht, rfl, rfl⟩
    exact ⟨ht.rows, { ht with rows := congrArg (· + 1) ht.rows }, rfl, rfl⟩
  objective := by
    rintro row m n ⟨ht, rfl, rfl⟩
    exact ⟨{ ht with objective := rfl }, rfl, rfl⟩
  nextColumn := by
    rintro m n ⟨ht, rfl, rfl⟩
    exact h.nextColumn_eq

/-- The counter is right, and the handles are the given ones. -/
structure Registry.Follows (f : ColumnId → Variable) (r : Registry α) : Prop where
  counted : r.Counted
  handle : r.handle = f

/-- Twins that either can go on in step, or are both unusable. -/
def Paired (f g : ColumnId → Variable) (m n : Model α (Logged α (ServiceBackend α))) : Prop :=
  Twins m n ∧ (m.poisoned = true ∨ m.registry.Follows f ∧ n.registry.Follows g)

variable {f g : ColumnId → Variable} {m n : Model α (Logged α (ServiceBackend α))}

omit [Scalar α] [Codec α] in
theorem Registry.Follows.register {r : Registry α} (h : r.Follows f) {p : Draft α}
    (hp : p.Counts r) : (p.register r).Follows f :=
  ⟨h.counted.register hp, h.handle⟩

theorem Twins.draft (h : Twins m n) (hm : m.registry.Follows f) (hn : n.registry.Follows g)
    {p q : Draft α} (hpq : p.Alike q) (hd : p.info.domain.isSupported = true)
    (hp : p.Counts m.registry) (hq : q.Counts n.registry) :
    Agree p.execute q.execute (fun v w m' n' => v.column = w.column ∧ Paired f g m' n')
      (fun m' n' => Twins m' n' ∧ m'.poisoned = true) m n := by
  have hinfo : p.info.outward = q.info.outward := by
    rw [VariableInfo.outward, VariableInfo.outward, hpq.name, hpq.domain]
  have hcounted : Registry.Alike { m.registry with anonymous := p.anonymous }
      { n.registry with anonymous := q.anonymous } := h.entries
  have hgrown : (p.register m.registry).Alike (q.register n.registry) := hcounted.insert hinfo
  have hx := (simulation_twins hcounted).draft (simulation_twins hgrown) (p := p) (q := q) (m := m)
    (n := n) ⟨{ h with }, rfl, rfl⟩ hpq.name hpq.domain hd hpq.row
    (V := fun v w => v.column = w.column) ?_
  · refine hx.mono ?_ fun _ _ he => he
    rintro v w m' n' ⟨hv, ht, hrm, hrn⟩
    exact ⟨hv, ht, .inr ⟨hrm ▸ hm.register hp, hrn ▸ hn.register hq⟩⟩
  · rintro c m' n' ⟨ht, hrm, hrn⟩
    refine ⟨rfl, { ht with entries := ht.entries.insert hinfo }, ?_, ?_⟩
    · exact congrArg (·.insert p.info) hrm
    · exact congrArg (·.insert q.info) hrn

theorem Twins.plan (h : Twins m n) (hm : m.registry.Follows f) (hn : n.registry.Follows g)
    {p q : Plan α} (hpq : p.Alike q) (hs : p.Sound m.registry) (hp : p.Counts m.registry)
    (hq : q.Counts n.registry) :
    Agree p.execute q.execute (fun a b m' n' => a.column? = b.column? ∧ Paired f g m' n')
      (fun m' n' => Twins m' n' ∧ m'.poisoned = true) m n := by
  have hpaired {m' n' : Model α (Logged α (ServiceBackend α))}
      (ht : TwinsWith m.registry n.registry m' n') : Paired f g m' n' :=
    ⟨ht.1, .inr ⟨ht.2.1 ▸ hm, ht.2.2 ▸ hn⟩⟩
  cases hpq with
  | @column p q hpq =>
    refine (h.draft hm hn hpq hs.domain hp hq).bind fun v w m' n' hvw => ?_
    exact agree_of_ok rfl rfl ⟨congrArg some hvw.1, hvw.2⟩
  | relation a b sense =>
    refine ((simulation_twins h.entries).relation ⟨h, rfl, rfl⟩ a b sense).mono ?_ fun _ _ he => he
    rintro a b m' n' ⟨rfl, ht⟩
    exact ⟨rfl, hpaired ht⟩
  | objective row =>
    refine ((simulation_twins h.entries).maximized ⟨h, rfl, rfl⟩ row).mono ?_ fun _ _ he => he
    rintro a b m' n' ⟨rfl, ht⟩
    exact ⟨rfl, hpaired ht⟩

theorem Twins.agree_call (h : Twins m n) (hm : m.registry.Follows f) (hn : n.registry.Follows g)
    {i : Instruction α} (hi : i.IsPlain) :
    Agree (i.onColumns f).call (i.onColumns g).call
      (fun a b m' n' => a.column? = b.column? ∧ Paired f g m' n') (Paired f g) m n := by
  have hbuildable : (m.buildable : Except (ModelError α) Unit) = n.buildable := by
    rw [Model.buildable, Model.buildable, h.poisoned, h.state]
  have hplans : Concur Plan.Alike (m.plan (i.onColumns f)) (n.plan (i.onColumns g)) := by
    unfold Model.plan
    rw [hbuildable, ← hm.handle, ← hn.handle]
    exact .same _ fun _ => i.concur_plan h.entries hm.counted hn.counted hi
  have hchecks := m.checks_plan (i.onColumns f)
  have hp : Yields (Plan.Counts m.registry) (m.plan (i.onColumns f)) :=
    .after fun _ => Instruction.yields_plan _ _
  have hq : Yields (Plan.Counts n.registry) (n.plan (i.onColumns g)) :=
    .after fun _ => Instruction.yields_plan _ _
  unfold Agree
  rw [instruction_eq, instruction_eq]
  cases hx : m.plan (i.onColumns f) with
  | error e =>
    cases hy : n.plan (i.onColumns g) with
    | error e' =>
      rw [hx, hy] at hplans
      exact ⟨hplans, h, .inr ⟨hm, hn⟩⟩
    | ok q =>
      rw [hx, hy] at hplans
      exact hplans.elim
  | ok p =>
    cases hy : n.plan (i.onColumns g) with
    | error e =>
      rw [hx, hy] at hplans
      exact hplans.elim
    | ok q =>
      rw [hx, hy] at hplans
      rw [hx] at hchecks
      have hexecute := h.plan hm hn hplans hchecks.2 (hp p hx) (hq q hy)
      exact hexecute.mono (fun _ _ _ _ h => h) fun _ _ he => ⟨he.1, .inl he.2⟩

theorem Paired.step (h : Paired f g m n) {i : Instruction α} (hi : i.IsPlain) :
    ((Action.build (i.onColumns f)).answer m).map Answer.column? =
        ((Action.build (i.onColumns g)).answer n).map Answer.column? ∧
      Paired f g ((Action.build (i.onColumns f)).after m)
        ((Action.build (i.onColumns g)).after n) := by
  obtain ⟨ht, hp | ⟨hm, hn⟩⟩ := h
  -- both are unusable, so neither call is taken
  · have hp' : n.poisoned = true := ht.poisoned ▸ hp
    have hm := (Action.build (i.onColumns f)).call_of_poisoned hp
    have hn := (Action.build (i.onColumns g)).call_of_poisoned hp'
    rw [Action.answer_of_error hm, Action.answer_of_error hn, Action.after_of_error hm,
      Action.after_of_error hn]
    exact ⟨rfl, ht, .inl hp⟩
  · have hcall : Agree (Action.build (i.onColumns f)).call (Action.build (i.onColumns g)).call
        (fun a b m' n' => a.column? = b.column? ∧ Paired f g m' n') (Paired f g) m n :=
      ht.agree_call hm hn hi
    rcases hcall.cases with ⟨r, m', s, n', hx, hy, hrs, h⟩ | ⟨e, m', n', hx, hy, h⟩
    · rw [Action.answer_of_ok hx, Action.answer_of_ok hy, Action.after_of_ok hx,
        Action.after_of_ok hy]
      exact ⟨congrArg Except.ok hrs, h⟩
    · rw [Action.answer_of_error hx, Action.answer_of_error hy, Action.after_of_error hx,
        Action.after_of_error hy]
      exact ⟨rfl, h⟩

end Models

section Runs

variable [Scalar α]

/-- What the calls of a session gave back, where a variable counts as its column. -/
def Model.replies {β : Type} [Backend α β] (m : Model α β) (as : List (Action α)) :
    List (Except (ModelError α) (Option ColumnId)) :=
  (m.history as).map fun c => c.2.map Answer.column?

/-- What a session tells the backend, and which of it the backend accepts. -/
def Model.told {β : Type} [Backend α β] (m : Model α β) (as : List (Action α)) : List (LogLine α) :=
  ((m.logged []).after as).backend.log

/-- A session of building calls, on the variables of a model that stand for given columns. -/
def sessionOn (f : ColumnId → Variable) (is : List (Instruction α)) : List (Action α) :=
  is.map fun i => .build (i.onColumns f)

variable [Codec α] {f g : ColumnId → Variable}

theorem Paired.run {m n : Model α (Logged α (ServiceBackend α))} (h : Paired f g m n)
    {is : List (Instruction α)} (his : ∀ i ∈ is, i.IsPlain) :
    m.replies (sessionOn f is) = n.replies (sessionOn g is) ∧
      Paired f g (m.after (sessionOn f is)) (n.after (sessionOn g is)) := by
  induction is generalizing m n with
  | nil => exact ⟨rfl, h⟩
  | cons i is ih =>
    obtain ⟨hi, his⟩ := List.forall_mem_cons.1 his
    obtain ⟨hanswer, hafter⟩ := h.step hi
    obtain ⟨hreplies, hpaired⟩ := ih hafter his
    exact ⟨List.cons_eq_cons.2 ⟨hanswer, hreplies⟩, hpaired⟩

/-- Models that resemble each other go on alike, in whatever is called that asks no operand for its
value. -/
theorem Model.Resembles.run {m n : Model α (ServiceBackend α)} (h : m.Resembles n)
    (hm : m.registry.Counted) (hn : n.registry.Counted) {is : List (Instruction α)}
    (his : ∀ i ∈ is, i.IsPlain) :
    let as := sessionOn m.registry.handle is
    let bs := sessionOn n.registry.handle is
    m.told as = n.told bs ∧ m.replies as = n.replies bs ∧ (m.after as).Resembles (n.after bs) := by
  intro as bs
  have hpaired : Paired m.registry.handle n.registry.handle (m.logged []) (n.logged []) :=
    ⟨{ h with log := rfl }, .inr ⟨⟨hm, rfl⟩, ⟨hn, rfl⟩⟩⟩
  obtain ⟨hreplies, ht, -⟩ := hpaired.run his
  refine ⟨ht.log, ?_, ?_⟩
  · unfold replies at hreplies ⊢
    rwa [← history_unlogged, ← history_unlogged] at hreplies
  · have hend := ht.toResembles
    have ham := (m.logged []).after_unlogged as
    have hbn := (n.logged []).after_unlogged bs
    rw [unlogged_logged] at ham hbn
    rw [ham, hbn]
    exact { hend with }

end Runs

end LinearProgram
