import LinearProgram.Proofs.Bookkeeping

/-! Which building calls the buffering backend refuses. Whatever a model has been through, while it
is usable its own checks decide over a call, and only an empty name from the caller gets past them
to be refused. -/

namespace LinearProgram

variable {α : Type}

/-- The name that the caller gives. -/
def Instruction.name? : Instruction α → Option String
  | make o _ => o.name?
  | _ => none

namespace Model

variable [Scalar α] [Codec α] {m : Model α (ServiceBackend α)} {i : Instruction α} {p : Plan α}

omit [Codec α] in
/-- Only a name that the caller gave can be empty. -/
theorem name_ne_of_plan (hp : m.plan i = .ok p) (hn : i.name? ≠ some "") :
    ∀ q, p = .column q → q.info.name ≠ "" := by
  rintro q rfl hq
  have hfits := fits_of_plan hp
  cases i with
  | make o d =>
    have hname := hfits.name
    cases ho : o.name? with
    | some name =>
      rw [hq, ho] at hname
      exact hn (ho.trans (congrArg some hname.symm))
    | none =>
      rw [hq, ho] at hname
      exact Registry.generatedName_ne_empty _ hname.symm
  | relate | maximize | maximizeSum => exact hfits

omit [Codec α] in
theorem name_eq_of_plan (hp : m.plan i = .ok p) (hn : i.name? = some "") :
    ∃ q, p = .column q ∧ q.info.name = "" := by
  have hfits := fits_of_plan hp
  cases i with
  | make o d =>
    cases p with
    | column q =>
      have hname := hfits.name
      rw [show o.name? = some "" from hn] at hname
      exact ⟨q, rfl, hname⟩
    | relation | objective => exact hfits.elim
  | relate | maximize | maximizeSum => cases hn

theorem answer_of_check {e : ModelError α} (hp : m.plan i = .error e) :
    (Action.build i).answer m = .error e ∧ ¬ e.IsRefusal := by
  have hchecks := m.checks_plan i
  rw [hp] at hchecks
  have hcall : (Action.build i).call m = .error e m :=
    (Call.instruction_eq i).trans (by rw [hp]; rfl)
  exact ⟨Action.answer_of_error hcall, hchecks⟩

theorem answer_of_empty_name (hp : m.plan i = .ok p) (hn : i.name? = some "") :
    (Action.build i).answer m = .error (.backend .setColumnName (emptyNameRefused m)) := by
  obtain ⟨q, rfl, hq⟩ := name_eq_of_plan hp hn
  have hcall : (Action.build i).call m = (Plan.column q).execute m :=
    (Call.instruction_eq i).trans (by rw [hp]; rfl)
  exact Action.answer_of_error (hcall.trans (Call.bind_of_error (Draft.execute_of_name_eq hq)))

variable [ZeroIsNumber α]

/-- Here the backend has no say. -/
theorem InStep.answer_of_plan (h : m.InStep) (hp : m.plan i = .ok p) (hn : i.name? ≠ some "") :
    (Action.build i).answer m = .ok (p.answer m) := by
  have hchecks := m.checks_plan i
  rw [hp] at hchecks
  have hcall : (Action.build i).call m = p.execute m :=
    (Call.instruction_eq i).trans (by rw [hp]; rfl)
  rw [p.execute_of_sound h hchecks.2 (name_ne_of_plan hp hn)] at hcall
  exact Action.answer_of_ok hcall

theorem InStep.refuses_build_iff (h : m.InStep) (i : Instruction α) :
    Refuses (.build i, (Action.build i).answer m) ↔
      i.name? = some "" ∧ ∃ p, m.plan i = .ok p := by
  cases hp : m.plan i with
  | error e =>
    obtain ⟨ha, he⟩ := answer_of_check hp
    rw [ha, refuses_iff (a := .build i) trivial]
    exact iff_of_false he (by simp)
  | ok p =>
    by_cases hn : i.name? = some ""
    · rw [answer_of_empty_name hp hn, refuses_iff (a := .build i) trivial]
      exact iff_of_true trivial ⟨hn, p, rfl⟩
    · rw [h.answer_of_plan hp hn]
      exact iff_of_false (by simp [Refuses]) fun h => hn h.1

theorem InStep.answer_of_legal (h : m.InStep) (hn : i.name? ≠ some "") :
    (Action.build i).answer m = (m.plan i).map (·.answer m) := by
  cases hp : m.plan i with
  | error e => exact (answer_of_check hp).1
  | ok p => exact h.answer_of_plan hp hn

/-- Calls without empty names, one after another, leave the model usable. -/
theorem Balanced.after_legal (h : m.Balanced) (hp : m.poisoned = false) {is : List (Instruction α)}
    (hn : ∀ i ∈ is, i.name? ≠ some "") :
    (∀ c ∈ m.history (is.map .build), ∀ operation source,
        c.2 ≠ .error (.backend operation source)) ∧
      (m.after (is.map .build)).poisoned = false := by
  induction is generalizing m with
  | nil => exact ⟨List.forall_mem_nil _, hp⟩
  | cons i is ih =>
    obtain ⟨hi, his⟩ := List.forall_mem_cons.1 hn
    have hstep : ¬ Refuses (.build i, (Action.build i).answer m) :=
      fun hr => hi (((h.inStep hp).refuses_build_iff i).1 hr).1
    have hafter : ((Action.build i).after m).poisoned = false := by
      have hiff := (Action.build i).poisoned_after_iff hp
      exact Bool.eq_false_of_not_eq_true fun hpoisoned => hstep (hiff.1 hpoisoned)
    obtain ⟨hrest, hlast⟩ := ih ((moves h.inStep (.build i)).balanced h) hafter his
    refine ⟨List.forall_mem_cons.2 ⟨fun operation source he => ?_, hrest⟩, hlast⟩
    exact hstep ⟨trivial, operation, source, he⟩

/-- In every session that has left its model usable, the answer to a building call is the one that
the checks of the model come to, and so it is for any calls after it: the backend refuses none of
them and the model stays usable. The exception is a call with an empty name. It is refused just when
the checks let it pass. -/
theorem legal_builds_accepted (id : ModelId) (service : SolverService α) (config : Config α)
    (events : List Event) (as : List (Action α))
    (hp : ((Model.fresh id service config events).after as).poisoned = false) :
    let m := (Model.fresh id service config events).after as
    (∀ i : Instruction α, i.name? ≠ some "" →
        (Action.build i).answer m = (m.plan i).map (·.answer m)) ∧
      (∀ is : List (Instruction α), (∀ i ∈ is, i.name? ≠ some "") →
        (∀ c ∈ m.history (is.map .build), ∀ operation source,
          c.2 ≠ .error (.backend operation source)) ∧
        (m.after (is.map .build)).poisoned = false) ∧
      ∀ i : Instruction α, Refuses (.build i, (Action.build i).answer m) ↔
        i.name? = some "" ∧ ∃ p, m.plan i = .ok p := by
  intro m
  have h : m.Balanced := (InStep.fresh id service config events).balanced.after as
  exact ⟨fun i => (h.inStep hp).answer_of_legal, fun is => h.after_legal hp,
    (h.inStep hp).refuses_build_iff⟩

/-- A file from elsewhere. Its binary column may go up to three. -/
def widened : String :=
  "ROWS\n N cost\n L cap\nCOLUMNS\n pick cost 1 cap 2\n rest cap -1\nBOUNDS\n BV b pick\n" ++
    " UP b pick 3\n MI b rest\nENDATA\n"

def afterWidened : List (Action Float) :=
  [.build (.make (.create "x") .anyReal),
    .load "w.mps" { entries := [(["w.mps"], widened.toUTF8)] }]

/-- Calls of many kinds. The name `rest` is taken, and the variable from before the load is stale. -/
def variedCalls : List (Instruction Float) :=
  let pick : Variable := ⟨⟨0⟩, 1, ⟨1⟩⟩
  let rest : Variable := ⟨⟨0⟩, 1, ⟨2⟩⟩
  [.make (.create "rest") .anyReal, .make (.sum pick pick) .nonNegativeInteger,
    .make (.namedConstant "two" (1 + 1)) .nonNegativeReal,
    .make (.divideBy rest ⟨⟨0⟩, 1, ⟨4⟩⟩) .anyReal, .relate pick rest .lessEqual,
    .maximize ⟨⟨0⟩, 0, ⟨1⟩⟩, .maximizeSum [pick, rest, pick]]

theorem legal_builds_accepted_widened :
    let m := (Build.newModel 0).after afterWidened
    m.poisoned = false ∧ (∀ i ∈ variedCalls, i.name? ≠ some "") ∧
      (m.after (variedCalls.map .build)).poisoned = false ∧
      (m.after (variedCalls.map .build)).snapshot = ⟨5, 5⟩ ∧
      Refuses (.build (.make (.create "") .anyReal),
        (Action.build (.make (.create "") .anyReal)).answer m) := by
  intro m
  have hn : ∀ i ∈ variedCalls, i.name? ≠ some "" := by decide
  -- one evaluation of the session for all that is read off it
  obtain ⟨hp, hplan, hsize⟩ : m.poisoned = false ∧
      (m.plan (.make (.create "") .anyReal)).isOk = true ∧
      (m.after (variedCalls.map .build)).snapshot = ⟨5, 5⟩ := by decide +kernel
  obtain ⟨-, hlegal, hrefused⟩ :=
    legal_builds_accepted ⟨0⟩ ({} : Script Float).service {} [] afterWidened hp
  refine ⟨hp, hn, (hlegal variedCalls hn).2, hsize, (hrefused _).2 ⟨rfl, ?_⟩⟩
  cases hx : m.plan (.make (.create "") .anyReal) with
  | error e =>
    rw [hx] at hplan
    cases hplan
  | ok p => exact ⟨p, rfl⟩

end Model

end LinearProgram
