import LinearProgram.Backend.Service
import LinearProgram.Binary64.Arithmetic
import LinearProgram.Proofs.CallOutcome

/-! How a model over the buffering backend grows. A variable brings exactly one column, a row
exactly one constraint, and every call that builds is a few checks followed by these two. -/

namespace LinearProgram

variable {α : Type}

/-- Zero is a number, so it may stand as a bound. -/
class ZeroIsNumber (α : Type) [Scalar α] : Prop where
  isNaN_zero : Scalar.isNaN (0 : α) = false

instance : ZeroIsNumber Rat := ⟨rfl⟩

instance : ZeroIsNumber Float := ⟨by decide +kernel⟩

def Domain.column [Scalar α] (d : Domain) (name : String) : Column α :=
  let type := if d.isInteger then VariableType.integer else .continuous
  match d.range with
  | .unconstrained => ⟨type, none, none, name⟩
  | .nonNegative => ⟨type, some 0, none, name⟩
  | .binary => ⟨.binary, some 0, some 1, name⟩

def LinearRow.offsetTerms [Scalar α] (r : LinearRow α) : Terms α :=
  r.terms.map fun t => (t.1.offset, t.2)

theorem modify_concat {γ : Type} (f : γ → γ) (l : List γ) (a : γ) :
    (l ++ [a]).modify l.length f = l ++ [f a] := by
  induction l with
  | nil => rfl
  | cons b l ih => simp [ih]

namespace ServiceBackend

def pushColumn (b : ServiceBackend α) (c : Column α) : ServiceBackend α :=
  { b with problem := { b.problem with columns := b.problem.columns ++ [c] } }

theorem hasColumn_pushColumn_new (b : ServiceBackend α) (c : Column α) :
    (b.pushColumn c).hasColumn (.ofOffset b.problem.columns.length) = true := by
  simp [hasColumn_iff, pushColumn, ColumnId.ofOffset, ColumnId.offset]

theorem modifyColumn_pushColumn_new (b : ServiceBackend α) (c : Column α)
    (f : Column α → Column α) :
    (b.pushColumn c).modifyColumn (.ofOffset b.problem.columns.length) f =
      .ok (b.pushColumn (f c)) := by
  rw [modifyColumn, if_pos (hasColumn_pushColumn_new b c)]
  simp [pushColumn, modify_concat]

theorem offsets_eq {b : ServiceBackend α} {ts : List (Term α)}
    (h : ∀ t ∈ ts, b.hasColumn t.1 = true) :
    b.offsets ts = .ok (ts.map fun t => (t.1.offset, t.2)) := by
  induction ts with
  | nil => rfl
  | cons t ts ih =>
    obtain ⟨c, a⟩ := t
    rw [offsets, if_pos (h _ List.mem_cons_self), ih fun t ht => h t (List.mem_cons_of_mem _ ht)]
    rfl

variable [Scalar α]

theorem setColumnName_new {b b' : ServiceBackend α} {c : Column α} {name : String} :
    (b.pushColumn c).apply (.setColumnName (.ofOffset b.problem.columns.length) name) = .ok b' ↔
      name ≠ "" ∧ b.pushColumn { c with name } = b' := by
  simp only [apply]
  split
  · simp_all
  · simp_all [modifyColumn_pushColumn_new]

/-- The directives of a domain, given to the last column, make it the column of the domain. -/
theorem directives_new [ZeroIsNumber α] {d : Domain} (hd : d.isSupported = true)
    (b : ServiceBackend α) (name : String) :
    (d.directives (.ofOffset b.problem.columns.length)).foldlM apply
      (b.pushColumn (.continuous name)) = .ok (b.pushColumn (d.column name)) := by
  obtain ⟨kind, range, constant⟩ := d
  cases kind <;> cases range <;>
    simp_all [Domain.directives, Domain.column, Domain.isInteger, Domain.isBinary,
      Domain.isSupported, apply, modifyColumn_pushColumn_new, boundsConsistent,
      ZeroIsNumber.isNaN_zero, Column.continuous, Column.withBounds, List.foldlM_cons, bind,
      Except.bind, pure, Except.pure]

end ServiceBackend

namespace Model

/-- The variables are the columns of the backend, and the counters count what it holds. -/
structure InStep (m : Model α (ServiceBackend α)) : Prop where
  entries : m.registry.entries.length = m.backend.problem.columns.length
  columns : m.columns = m.backend.problem.columns.length
  rows : m.rows = m.backend.problem.constraints.length

theorem InStep.nextColumn {m : Model α (ServiceBackend α)} (h : m.InStep) :
    m.registry.nextColumn = .ofOffset m.backend.problem.columns.length := by
  rw [Registry.nextColumn, h.entries]

theorem InStep.hasColumn {m : Model α (ServiceBackend α)} (h : m.InStep) {v : Variable}
    {c : ColumnId} (hv : m.registry.resolve v = .ok c) : m.backend.hasColumn c = true := by
  obtain ⟨-, -, -, hn, hl⟩ := Registry.resolve_eq_ok_iff.1 hv
  exact ServiceBackend.hasColumn_iff.2 ⟨hn, h.entries ▸ hl⟩

variable [Scalar α]

def grow (m : Model α (ServiceBackend α)) (info : VariableInfo α) : Model α (ServiceBackend α) :=
  let c := m.registry.nextColumn
  { m with
    backend := m.backend.pushColumn (info.domain.column info.name)
    registry := m.registry.insert info
    columns := m.columns + 1
    events := m.events ++ [.createdVariable c info.name info.domain] }

def pushRow (m : Model α (ServiceBackend α)) (row : LinearRow α) (sense : Sense) (bound : α) :
    Model α (ServiceBackend α) :=
  { m with
    backend := m.backend.addConstraint sense row.offsetTerms bound
    rows := m.rows + 1
    events := m.events ++
      [.emittedRow ⟨m.rows + 1⟩ row.terms.length sense (Scalar.text bound)] }

theorem InStep.grow {m : Model α (ServiceBackend α)} (h : m.InStep) (info : VariableInfo α) :
    (m.grow info).InStep where
  entries := by simp [Model.grow, ServiceBackend.pushColumn, Registry.insert, h.entries]
  columns := by simp [Model.grow, ServiceBackend.pushColumn, h.columns]
  rows := h.rows

theorem InStep.pushRow {m : Model α (ServiceBackend α)} (h : m.InStep) (row : LinearRow α)
    (sense : Sense) (bound : α) : (m.pushRow row sense bound).InStep where
  entries := h.entries
  columns := h.columns
  rows := by simp [Model.pushRow, ServiceBackend.addConstraint, h.rows]

end Model

namespace Call

variable [Scalar α] [Codec α] {m m' : Model α (ServiceBackend α)}

theorem send_of_ok {d : Directive α} {b : ServiceBackend α} (h : m.backend.apply d = .ok b) :
    send d m = .ok () { m with backend := b } := by
  have hs : Backend.send d m.backend = .ok () b := Request.step_of_ok (by rw [h]; rfl)
  simp only [send, request, hs]

theorem send_eq_ok_iff {d : Directive α} {u : Unit} :
    send d m = .ok u m' ↔ ∃ b, m.backend.apply d = .ok b ∧ { m with backend := b } = m' := by
  cases h : m.backend.apply d with
  | ok b => simp [send_of_ok h]
  | error e =>
    have hs : Backend.send d m.backend = .error e m.backend :=
      Request.step_of_error (by rw [h]; rfl)
    simp [send, request, hs]

theorem sendAll_of_ok {ds : List (Directive α)} {b : ServiceBackend α}
    (h : ds.foldlM ServiceBackend.apply m.backend = .ok b) :
    sendAll ds m = .ok () { m with backend := b } := by
  induction ds generalizing m with
  | nil =>
    obtain rfl := Except.ok.inj h
    rfl
  | cons d ds ih =>
    cases hd : m.backend.apply d with
    | error e => simp [List.foldlM_cons, hd, bind, Except.bind] at h
    | ok b' =>
      simp only [List.foldlM_cons, hd, bind, Except.bind] at h
      exact (bind_of_ok (send_of_ok hd)).trans (ih (m := { m with backend := b' }) h)

theorem allocate_of_name_ne [ZeroIsNumber α] (h : m.InStep) {info : VariableInfo α}
    (hd : info.domain.isSupported = true) (hn : info.name ≠ "") :
    allocate info m = .ok (m.registry.handle m.registry.nextColumn) (m.grow info) := by
  let b := m.backend
  let m₁ := { m with backend := b.addColumn, columns := m.columns + 1 }
  let m₂ := { m₁ with backend := b.pushColumn (.continuous info.name) }
  have hname : send (.setColumnName m.registry.nextColumn info.name) m₁ = .ok () m₂ :=
    send_of_ok (by rw [h.nextColumn]; exact ServiceBackend.setColumnName_new.2 ⟨hn, rfl⟩)
  have hsend : sendAll (info.domain.directives m.registry.nextColumn) m₂ =
      .ok () { m₂ with backend := b.pushColumn (info.domain.column info.name) } :=
    sendAll_of_ok (by rw [h.nextColumn]; exact ServiceBackend.directives_new hd b info.name)
  have hdir : install info.domain m.registry.nextColumn m₂ =
      .ok () { m₂ with backend := b.pushColumn (info.domain.column info.name) } :=
    (bind_of_ok (a := ()) (checkDomain_eq_ok_iff.2 ⟨hd, rfl⟩)).trans hsend
  calc allocate info m
      = (do
          send (.setColumnName m.registry.nextColumn info.name)
          install info.domain m.registry.nextColumn
          report (.createdVariable m.registry.nextColumn info.name info.domain)
          modifyGet fun n => (n.registry.handle m.registry.nextColumn,
            { n with registry := n.registry.insert info }) : Call α _ Variable) m₁ := rfl
    _ = _ := by rw [bind_of_ok hname, bind_of_ok hdir]; rfl

/-- Only an empty name keeps a variable of a supported domain from being made. -/
theorem allocate_eq_ok_iff [ZeroIsNumber α] (h : m.InStep) {info : VariableInfo α}
    (hd : info.domain.isSupported = true) {v : Variable} :
    allocate info m = .ok v m' ↔
      info.name ≠ "" ∧ m.registry.handle m.registry.nextColumn = v ∧ m.grow info = m' := by
  by_cases hn : info.name = ""
  · refine iff_of_false (fun hr => ?_) fun hr => hr.1 hn
    simp only [allocate, bind_eq_ok_iff, send_eq_ok_iff] at hr
    obtain ⟨_, _, _, _, _, _, _, _, _, _, _, ⟨b, hb, -⟩, -⟩ := hr
    simp [ServiceBackend.apply, hn] at hb
  · rw [allocate_of_name_ne h hd hn]
    simp [hn]

theorem emitRow_of_hasColumn {row : LinearRow α}
    (h : ∀ t ∈ row.terms, m.backend.hasColumn t.1 = true) (sense : Sense) (bound : α) :
    emitRow row sense bound m = .ok () (m.pushRow row sense bound) := by
  have hs : send (.addRow row.terms sense bound) m =
      .ok () { m with backend := m.backend.addConstraint sense row.offsetTerms bound } :=
    send_of_ok (by rw [ServiceBackend.apply, ServiceBackend.offsets_eq h]; rfl)
  exact (bind_of_ok hs).trans rfl

end Call

end LinearProgram
