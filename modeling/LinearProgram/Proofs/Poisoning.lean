import LinearProgram.Proofs.GuardFailure

/-! Poisoning. The refusals that a session has met tell whether its model is poisoned, and a
poisoned model takes no call any more. -/

namespace LinearProgram

variable {α β : Type} [Scalar α] [Backend α β]

/-- What makes a model unusable: a call that may change it, refused by the backend. -/
def Refuses (c : Action α × Except (ModelError α) (Answer α)) : Prop :=
  c.1.Alters ∧ ∃ operation source, c.2 = .error (.backend operation source)

omit [Scalar α] in
theorem ModelError.isRefusal_iff {e : ModelError α} :
    e.IsRefusal ↔ ∃ operation source, e = .backend operation source := by
  cases e <;> simp [IsRefusal]

omit [Scalar α] in
theorem refuses_iff {a : Action α} (ha : a.Alters) {e : ModelError α} :
    Refuses (a, .error e) ↔ e.IsRefusal := by
  simp [Refuses, ha, ModelError.isRefusal_iff]

namespace Action

variable {m : Model α β}

theorem call_of_poisoned (a : Action α) (h : m.poisoned = true) :
    a.call m = .error .poisoned m := by
  have hb : m.buildable = .error .poisoned := by simp [Model.buildable, h]
  cases a with
  | build i =>
    have hp : m.plan i = .error .poisoned := by
      rw [Model.plan, hb]
      rfl
    exact (Call.instruction_eq i).trans (by rw [hp]; rfl)
  | solve => exact Call.bind_of_error (Call.solve_of_not_open hb)
  | save path files => exact Call.bind_of_error (Call.save_of_poisoned h)
  | load path files => exact Call.bind_of_error (Call.load_of_poisoned h)
  | value v =>
    have hv : m.value v = .error .poisoned := by
      unfold Model.value Model.usable
      rw [if_pos h]
      rfl
    simp [call, Call.ask, hv, Except.map]

@[simp] theorem after_value (v : Variable) (m : Model α β) : (value v).after m = m := by
  simp only [after, call, Call.ask]
  cases (m.value v).map Answer.value <;> rfl

/-- Saving and asking for a value leave all but the backend and the events alone. -/
theorem exists_after_of_not_alters {a : Action α} (ha : ¬ a.Alters) (m : Model α β) :
    ∃ b events, a.after m = { m with backend := b, events } := by
  cases a with
  | build i => exact (ha trivial).elim
  | solve => exact (ha trivial).elim
  | load path files => exact (ha trivial).elim
  | save path files =>
    by_cases hp : m.poisoned = true
    · exact ⟨m.backend, m.events, after_of_error (call_of_poisoned _ hp)⟩
    · have hused := Bool.of_not_eq_true hp
      cases hs : Backend.save path files m.backend with
      | ok r b => exact ⟨b, _, after_of_ok (Call.bind_of_ok (Call.save_of_ok hused hs))⟩
      | error e b =>
        exact ⟨b, m.events, after_of_error (Call.bind_of_error (Call.save_of_error hused hs))⟩
  | value v => exact ⟨m.backend, m.events, after_value v m⟩

theorem poisoned_after_of_not_alters {a : Action α} (ha : ¬ a.Alters) (m : Model α β) :
    (a.after m).poisoned = m.poisoned := by
  obtain ⟨b, events, h⟩ := exists_after_of_not_alters ha m
  rw [h]

theorem poisoned_after_iff (a : Action α) (hm : m.poisoned = false) :
    (a.after m).poisoned = true ↔ Refuses (a, a.answer m) := by
  by_cases ha : a.Alters
  · rcases (a.guarded ha m).cases with ⟨r, m', hc, hp⟩ | ⟨e, m', hc, he, hp⟩ | ⟨e, hc, he⟩
    · rw [after_of_ok hc, answer_of_ok hc]
      simp [Refuses, hp, hm]
    · rw [after_of_error hc, answer_of_error hc, refuses_iff ha]
      exact iff_of_true hp he
    · rw [after_of_error hc, answer_of_error hc, refuses_iff ha]
      exact iff_of_false (by simp [hm]) he
  · rw [poisoned_after_of_not_alters ha, hm]
    simp [Refuses, ha]

end Action

namespace Model

variable {m : Model α β}

theorem after_of_poisoned (h : m.poisoned = true) (as : List (Action α)) : m.after as = m := by
  induction as with
  | nil => rfl
  | cons a as ih => rw [after_cons, Action.after_of_error (a.call_of_poisoned h), ih]

theorem history_of_poisoned (h : m.poisoned = true) (as : List (Action α)) :
    m.history as = as.map fun a => (a, .error .poisoned) := by
  induction as with
  | nil => rfl
  | cons a as ih =>
    have ha := a.call_of_poisoned h
    rw [history, Action.after_of_error ha, Action.answer_of_error ha, ih, List.map_cons]

theorem poisoned_after_iff_exists (hm : m.poisoned = false) (as : List (Action α)) :
    (m.after as).poisoned = true ↔ ∃ c ∈ m.history as, Refuses c := by
  induction as generalizing m with
  | nil => simp [history, hm]
  | cons a as ih =>
    have ha := a.poisoned_after_iff hm
    rw [after_cons]
    simp only [history, List.mem_cons, exists_eq_or_imp, ← ha]
    cases hp : (a.after m).poisoned with
    | true => simp [after_of_poisoned hp, hp]
    | false => simp [ih hp]

/-- A session poisons its model exactly when the backend refuses one of the calls that may change
it. From then on every call is turned away, and neither the model nor the backend's log moves. -/
theorem poisoned_iff_refused (id : ModelId) (b : β) (events : List Event) (as : List (Action α)) :
    let m := (Model.new id b events).after as
    (m.poisoned = true ↔ ∃ c ∈ (Model.new id b events).history as, Refuses c) ∧
      (m.poisoned = true → ∀ bs : List (Action α),
        (m.history bs = bs.map fun a => (a, .error .poisoned)) ∧ m.after bs = m ∧
          ∀ log, (m.logged log).after bs = m.logged log) := by
  intro m
  refine ⟨poisoned_after_iff_exists rfl as, fun h bs => ?_⟩
  exact ⟨history_of_poisoned h bs, after_of_poisoned h bs, fun log =>
    after_of_poisoned (m := m.logged log) h bs⟩

/-- A backend that refuses the bounds of the second column. -/
def refusing : Recording Rat :=
  { rejects := [(.setBounds, 2)] }

def twoVariables : List (Action Rat) :=
  [.build (.make (.create "x") .anyReal), .build (.make .createAnonymous .nonNegativeInteger)]

theorem poisoned_iff_refused_twoVariables :
    let m := (Model.new ⟨0⟩ refusing []).after twoVariables
    m.poisoned = true ∧ (∃ c ∈ (Model.new ⟨0⟩ refusing []).history twoVariables, Refuses c) ∧
      m.after [.build (.maximizeSum []), .solve, .load "x.json" {}] = m := by
  intro m
  have h := poisoned_iff_refused ⟨0⟩ refusing [] twoVariables
  have hp : m.poisoned = true := by decide +kernel
  exact ⟨hp, h.1.1 hp, (h.2 hp _).2.1⟩

end Model

end LinearProgram
