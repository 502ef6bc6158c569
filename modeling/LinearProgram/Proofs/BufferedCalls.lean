import LinearProgram.Proofs.BuiltModels
import LinearProgram.Proofs.SaveLoad

/-! Calls on a model over the buffering backend, one by one: what each answers, and in which model
it ends. Of all the directives that the building calls send, this backend refuses only an empty
name. -/

namespace LinearProgram

variable {α : Type}

section Drafts

variable [Scalar α]

/-- What a draft shows of the call that it was made for. -/
structure Draft.Fits (r : Registry α) (o : Origin α) (p : Draft α) : Prop where
  row : p.row.isSome = !o.isFree
  name : p.info.name = o.name?.getD (Registry.generatedName r.nextAnonymous)

theorem Origin.yields_fits (r : Registry α) (d : Domain) (o : Origin α) :
    Yields (Draft.Fits r o) (o.draft r d) :=
  yields_of_forms (fun _ _ _ _ hn _ hrow => ⟨hrow, by rw [hn]; rfl⟩)
    fun _ _ _ hn hrow => ⟨hrow, by rw [hn]; rfl⟩

/-- Whether a plan is one for the instruction. -/
def Plan.Fits (r : Registry α) : Instruction α → Plan α → Prop
  | .make o _, column p => p.Fits r o
  | .relate .., relation .. => True
  | .maximize _, objective _ | .maximizeSum _, objective _ => True
  | _, _ => False

theorem Instruction.yields_fits (r : Registry α) (i : Instruction α) :
    Yields (Plan.Fits r i) (i.plan r) := by
  cases i with
  | make o d => exact (o.yields_fits r d).bind fun p hp => yields_of_ok hp
  | relate a b sense => exact .after fun _ => .after fun _ => yields_of_ok trivial
  | maximize v => exact .after fun _ => yields_of_ok trivial
  | maximizeSum vs => exact .after fun _ => yields_of_ok trivial

theorem Model.fits_of_plan {m : Model α (ServiceBackend α)} {i : Instruction α} {p : Plan α}
    (h : m.plan i = .ok p) : p.Fits m.registry i :=
  Yields.after (fun _ => i.yields_fits m.registry) p h

end Drafts

/-- What a call may answer, and where it then leaves the model. -/
inductive Model.Moves [Scalar α] [Codec α] (m : Model α (ServiceBackend α)) :
    Action α → Except (ModelError α) (Answer α) → Model α (ServiceBackend α) → Prop
  | turnedAway {a : Action α} {e : ModelError α} (check : ¬ e.IsRefusal) : Moves m a (.error e) m
  | built {i : Instruction α} {p : Plan α} (isOpen : m.Open) (plan : m.plan i = .ok p)
      (sound : p.Sound m.registry) (call : i.call m = .ok (p.answer m) (p.outcome m)) :
      Moves m (.build i) (.ok (p.answer m)) (p.outcome m)
  | stranded {o : Origin α} {d : Domain} {p : Draft α} (isOpen : m.Open)
      (plan : m.plan (.make o d) = .ok (.column p)) (name : o.name? = some "") :
      Moves m (.build (.make o d)) (.error (.backend .setColumnName (emptyNameRefused m)))
        (p.strand m)
  | solved {s : Solution α} {reported events : List Event} (isOpen : m.Open)
      (solution : m.backend.solve =
        .ok ((s.status, reported), { m.backend with solution := some s })) :
      Moves m .solve (.ok (.status s.status.shared))
        { m with
          backend := { m.backend with solution := some s }
          state := .solved s.status.shared
          events }
  | unsolved {e : BackendError} {events : List Event} (isOpen : m.Open)
      (refused : m.backend.solve = .error e) :
      Moves m .solve (.error (.backend .solve e))
        { m with state := .solving, poisoned := true, events }
  | saved {path : String} {files files' : Files} {events : List Event}
      (usable : m.poisoned = false) :
      Moves m (.save path files) (.ok (.saved files')) { m with events }
  | unsaved {path : String} {files : Files} {e : BackendError} (usable : m.poisoned = false) :
      Moves m (.save path files) (.error (.backend .saveModel e)) m
  | loaded {path : String} {files : Files} {q : Problem α} {reported events : List Event}
      (usable : m.poisoned = false) (file : Problem.load path files = .ok (q, reported)) :
      Moves m (.load path files) (.ok (.loaded ⟨q.constraints.length, q.columns.length⟩))
        { m.restoredFrom q with events }
  | unloaded {path : String} {files : Files} {e : BackendError} {events : List Event}
      (usable : m.poisoned = false)
      (file : (Problem.load path files : Except _ (Problem α × _)) = .error e) :
      Moves m (.load path files) (.error (.backend .loadModel e))
        { m with poisoned := true, events }
  | asked {v : Variable} {answer : Except (ModelError α) (Answer α)} : Moves m (.value v) answer m

theorem ServiceBackend.exists_of_solve {b b' : ServiceBackend α} {r : SolverStatus × List Event}
    (h : b.solve = .ok (r, b')) : ∃ s reported, b.service.solve b.problem = .ok (s, reported) ∧
      r = (s.status, reported) ∧ b' = { b with solution := some s } := by
  unfold solve at h
  split at h
  · cases h
  · split at h
    · cases h
    · cases h
      exact ⟨_, _, ‹_›, rfl, rfl⟩

namespace Model

variable [Scalar α] [Codec α] {m : Model α (ServiceBackend α)}

theorem moves_of_ok {a : Action α} {r : Answer α} {m' : Model α (ServiceBackend α)}
    (h : a.call m = .ok r m') (hm : m.Moves a (.ok r) m') : m.Moves a (a.answer m) (a.after m) := by
  rw [Action.answer_of_ok h, Action.after_of_ok h]
  exact hm

theorem moves_of_error {a : Action α} {e : ModelError α} {m' : Model α (ServiceBackend α)}
    (h : a.call m = .error e m') (hm : m.Moves a (.error e) m') :
    m.Moves a (a.answer m) (a.after m) := by
  rw [Action.answer_of_error h, Action.after_of_error h]
  exact hm

theorem moves_solve (m : Model α (ServiceBackend α)) :
    m.Moves .solve (Action.solve.answer m) (Action.solve.after m) := by
  have hchecks := m.checks_buildable
  cases hb : m.buildable with
  | error e =>
    rw [hb] at hchecks
    exact moves_of_error (Call.bind_of_error (Call.solve_of_not_open hb)) (.turnedAway hchecks)
  | ok u =>
    rw [hb] at hchecks
    cases hs : m.backend.solve with
    | error e =>
      obtain ⟨events, hc⟩ := Call.solve_of_error hchecks (Request.step_of_error hs)
      exact moves_of_error (Call.bind_of_error hc) (.unsolved hchecks hs)
    | ok r =>
      obtain ⟨r, b⟩ := r
      obtain ⟨s, reported, -, rfl, rfl⟩ := ServiceBackend.exists_of_solve hs
      obtain ⟨events, hc⟩ := Call.solve_of_ok hchecks (Request.step_of_ok hs)
      exact moves_of_ok (Call.bind_of_ok hc) (.solved hchecks hs)

theorem moves_save (path : String) (files : Files) (m : Model α (ServiceBackend α)) :
    m.Moves (.save path files) ((Action.save path files).answer m)
      ((Action.save path files).after m) := by
  cases hp : m.poisoned with
  | true =>
    exact moves_of_error (Call.bind_of_error (Call.save_of_poisoned hp)) (.turnedAway not_false)
  | false =>
    cases hs : m.backend.problem.save path files with
    | error e =>
      have hc := Call.save_of_error hp (ServiceBackend.save_of_error hs)
      exact moves_of_error (Call.bind_of_error hc) (.unsaved hp)
    | ok r =>
      have hc := Call.save_of_ok hp (ServiceBackend.save_of_ok hs)
      exact moves_of_ok (Call.bind_of_ok hc) (.saved hp)

theorem moves_load (path : String) (files : Files) (m : Model α (ServiceBackend α)) :
    m.Moves (.load path files) ((Action.load path files).answer m)
      ((Action.load path files).after m) := by
  cases hp : m.poisoned with
  | true =>
    exact moves_of_error (Call.bind_of_error (Call.load_of_poisoned hp)) (.turnedAway not_false)
  | false =>
    cases hl : (Problem.load path files : Except BackendError (Problem α × List Event)) with
    | error e =>
      have hc := Call.load_of_error hp (ServiceBackend.load_of_error hl)
      exact moves_of_error (Call.bind_of_error hc) (.unloaded hp hl)
    | ok r =>
      obtain ⟨q, reported⟩ := r
      obtain ⟨events, hc⟩ :=
        Call.load_of_held hp (ServiceBackend.load_of_ok hl) (heldVariables_eq _)
      exact moves_of_ok (Call.bind_of_ok hc) (.loaded (q := q) hp hl)

variable [ZeroIsNumber α]

theorem InStep.moves_build (h : m.InStep) (i : Instruction α) :
    m.Moves (.build i) ((Action.build i).answer m) ((Action.build i).after m) := by
  have hchecks := m.checks_plan i
  have hi : (Action.build i).call m = _ := Call.instruction_eq i
  cases hp : m.plan i with
  | error e =>
    rw [hp] at hchecks hi
    exact moves_of_error hi (.turnedAway hchecks)
  | ok p =>
    rw [hp] at hchecks hi
    by_cases hn : ∀ q, p = .column q → q.info.name ≠ ""
    · have hx := hi.trans (p.execute_of_sound h hchecks.2 hn)
      exact moves_of_ok hx (.built hchecks.1 hp hchecks.2 hx)
    -- only a name that the caller gave can be empty
    · simp only [not_forall, not_not] at hn
      obtain ⟨q, rfl, hn⟩ := hn
      have hx := hi.trans (Call.bind_of_error (Draft.execute_of_name_eq hn))
      have hfits := fits_of_plan hp
      cases i with
      | make o d =>
        have hname : o.name?.getD _ = "" := hfits.name.symm.trans hn
        refine moves_of_error hx (.stranded hchecks.1 hp ?_)
        cases ho : o.name? with
        | some name =>
          rw [ho] at hname
          exact congrArg some hname
        | none =>
          rw [ho] at hname
          exact (Registry.generatedName_ne_empty _ hname).elim
      | relate a b sense => exact hfits.elim
      | maximize v => exact hfits.elim
      | maximizeSum vs => exact hfits.elim

theorem moves (h : m.poisoned = false → m.InStep) (a : Action α) :
    m.Moves a (a.answer m) (a.after m) := by
  cases hp : m.poisoned with
  | true =>
    exact moves_of_error (a.call_of_poisoned hp) (.turnedAway not_false)
  | false =>
    cases a with
    | build i => exact (h hp).moves_build i
    | solve => exact m.moves_solve
    | save path files => exact m.moves_save path files
    | load path files => exact m.moves_load path files
    | value v =>
      rw [Action.after_value]
      exact .asked

end Model

end LinearProgram
