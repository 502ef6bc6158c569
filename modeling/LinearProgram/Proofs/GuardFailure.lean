import LinearProgram.Proofs.LogErasure
import LinearProgram.Proofs.SingleRequests

/-! A call fails in one of two ways. Either the backend refuses a request, and the model cannot be
used any more, or a check speaks against the call before anything has happened. -/

namespace LinearProgram

variable {α β γ : Type}

/-- The calls that may change more of a model than its files. -/
def Action.Alters : Action α → Prop
  | .build _ | .solve | .load .. => True
  | .save .. | .value _ => False

namespace Call

/-- Where the call fails, the backend has refused and the model is unusable, or else the model is
as it was. -/
def Guarded (x : Call α β γ) (m : Model α β) : Prop :=
  match x m with
  | .ok _ m' => m'.poisoned = m.poisoned
  | .error e m' => e.IsRefusal ∧ m'.poisoned = true ∨ ¬ e.IsRefusal ∧ m' = m

variable {δ : Type} {m m' : Model α β} {x : Call α β γ} {e : ModelError α}

theorem guarded_of_ok {r : γ} (h : x m = .ok r m') (hp : m'.poisoned = m.poisoned) :
    Guarded x m := by
  simp only [Guarded, h]
  exact hp

theorem guarded_of_refusal (h : x m = .error e m') (he : e.IsRefusal) (hp : m'.poisoned = true) :
    Guarded x m := by
  simp only [Guarded, h]
  exact .inl ⟨he, hp⟩

theorem guarded_of_check (h : x m = .error e m) (he : ¬ e.IsRefusal) : Guarded x m := by
  simp only [Guarded, h]
  exact .inr ⟨he, trivial⟩

theorem Guarded.cases (h : Guarded x m) :
    (∃ r m', x m = .ok r m' ∧ m'.poisoned = m.poisoned) ∨
      (∃ e m', x m = .error e m' ∧ e.IsRefusal ∧ m'.poisoned = true) ∨
      ∃ e, x m = .error e m ∧ ¬ e.IsRefusal := by
  unfold Guarded at h
  cases hx : x m with
  | ok r m' =>
    simp only [hx] at h
    exact .inl ⟨r, m', rfl, h⟩
  | error e m' =>
    simp only [hx] at h
    rcases h with ⟨he, hp⟩ | ⟨he, rfl⟩
    · exact .inr (.inl ⟨e, m', rfl, he, hp⟩)
    · exact .inr (.inr ⟨e, rfl, he⟩)

theorem Guarded.answer {f : γ → δ} (h : Guarded x m) :
    Guarded (do let r ← x; return f r) m := by
  rcases h.cases with ⟨r, m', hx, hp⟩ | ⟨e, m', hx, he, hp⟩ | ⟨e, hx, he⟩
  · exact guarded_of_ok (bind_of_ok hx) hp
  · exact guarded_of_refusal (bind_of_error hx) he hp
  · exact guarded_of_check (bind_of_error hx) he

theorem Tells.guarded {x : Call α (Logged α β) γ} {m : Model α (Logged α β)}
    {ds : List (LogEntry α)} {n : Nat} (h : Tells x ds (fun _ m' => m.Grown n m') m) :
    Guarded x m := by
  rcases h.cases with ⟨r, m', hx, -, hg⟩ | ⟨e, m', pre, d, post, hx, he, hp, -⟩
  · exact guarded_of_ok hx hg.poisoned
  · exact guarded_of_refusal hx he hp

theorem Guarded.unlogged {x : Call α (Logged α β) γ} {y : Call α β γ} {m : Model α (Logged α β)}
    (h : Guarded x m) (ha : AgreeErased x y m m.unlogged) : Guarded y m.unlogged := by
  unfold Guarded at h
  rcases ha.cases with ⟨r, m', s, n, hx, hy, -, rfl⟩ | ⟨e, m', n, hx, hy, rfl⟩
  · simp only [hx] at h
    exact guarded_of_ok hy h
  · simp only [hx] at h
    rcases h with ⟨he, hp⟩ | ⟨he, rfl⟩
    · exact guarded_of_refusal hy he hp
    · exact guarded_of_check hy he

end Call

open Call

variable [Backend α β] {m : Model α β}

theorem guarded_solve (m : Model α β) : Guarded solve m := by
  have hchecks := m.checks_buildable
  cases hb : m.buildable with
  | error e =>
    rw [hb] at hchecks
    exact guarded_of_check (solve_of_not_open hb) hchecks
  | ok u =>
    rw [hb] at hchecks
    cases hs : Backend.solve m.backend with
    | ok r b =>
      obtain ⟨events, h⟩ := solve_of_ok hchecks hs
      exact guarded_of_ok h rfl
    | error e b =>
      obtain ⟨events, h⟩ := solve_of_error hchecks hs
      exact guarded_of_refusal h trivial rfl

variable [Scalar α]

theorem guarded_load (path : String) (files : Files) (m : Model α β) :
    Guarded (load path files) m := by
  cases hp : m.poisoned with
  | true => exact guarded_of_check (load_of_poisoned hp) not_false
  | false =>
    cases hl : Backend.load path files m.backend with
    | error e b => exact guarded_of_refusal (load_of_error hp hl) trivial rfl
    | ok reported b =>
      cases hh : Model.heldVariables b with
      | error e =>
        obtain ⟨events, h⟩ := load_of_unheld hp hl hh
        exact guarded_of_refusal h trivial rfl
      | ok entries =>
        obtain ⟨events, h⟩ := load_of_held hp hl hh
        exact guarded_of_ok h rfl

theorem Instruction.guarded (i : Instruction α) (m : Model α β) : Guarded i.call m := by
  -- the log is there to tell a refusal from a check, and is taken away again
  let n := m.logged []
  have hn : Guarded i.call n := by
    have hchecks := n.checks_plan i
    have hi := instruction_eq (m := n) i
    cases hp : n.plan i with
    | error e =>
      rw [hp] at hi hchecks
      exact guarded_of_check hi hchecks
    | ok p =>
      rw [hp] at hi hchecks
      have ht := (tells_plan hchecks.2).guarded
      unfold Guarded at ht ⊢
      rw [hi]
      exact ht
  exact hn.unlogged i.agree_erased

theorem Action.guarded {a : Action α} (ha : a.Alters) (m : Model α β) : Guarded a.call m := by
  cases a with
  | build i => exact i.guarded m
  | solve => exact (guarded_solve m).answer
  | load path files => exact (guarded_load path files m).answer
  | save path files => exact ha.elim
  | value v => exact ha.elim

theorem Action.eq_of_check {a : Action α} (ha : a.Alters) {m' : Model α β} {e : ModelError α}
    (h : a.call m = .error e m') (he : ¬ e.IsRefusal) : m' = m := by
  rcases (a.guarded ha m).cases with ⟨r, n, hx, -⟩ | ⟨e', n, hx, hr, -⟩ | ⟨e', hx, -⟩
  · cases h.symm.trans hx
  · obtain ⟨rfl, -⟩ := EStateM.Result.error.inj (h.symm.trans hx)
    exact (he hr).elim
  · exact (EStateM.Result.error.inj (h.symm.trans hx)).2

/-- A call that fails, but not by the backend, has left the model as it was and has not told the
backend anything. -/
theorem Action.check_failure_atomic {a : Action α} (ha : a.Alters) {m' : Model α β}
    {e : ModelError α} (h : a.call m = .error e m') (he : ¬ e.IsRefusal) :
    m' = m ∧ ∀ log, a.call (m.logged log) = .error e (m.logged log) := by
  refine ⟨a.eq_of_check ha h he, fun log => ?_⟩
  have hm : a.call (m.logged log).unlogged = .error e m' := h
  rcases (a.agree_erased (m := m.logged log)).cases with ⟨r, n, s, n', hl, hn, -⟩ | ⟨e', n, n', hl, hn, -⟩
  · cases hm.symm.trans hn
  · obtain ⟨rfl, -⟩ := EStateM.Result.error.inj (hm.symm.trans hn)
    rw [hl, a.eq_of_check ha hl he]

/-- Dividing by a constant of value zero passes all checks but the last. -/
def zeroed : Model Rat (Recording Rat) where
  backend := { columns := [Column.continuous "x", Column.continuous "zero"], rows := 1 }
  registry := {
    model := ⟨0⟩
    entries := [⟨"x", .anyReal, none, none⟩, ⟨"zero", .anyReal, some 0, some "0"⟩] }
  rows := 1
  columns := 2

theorem check_failure_atomic_zeroed :
    let divide : Action Rat := .build (.make (.divideBy ⟨⟨0⟩, 0, ⟨1⟩⟩ ⟨⟨0⟩, 0, ⟨2⟩⟩) .anyReal)
    divide.Alters ∧ ¬ (.divisionByZero : ModelError Rat).IsRefusal ∧
      divide.call zeroed = .error .divisionByZero zeroed ∧
      divide.call (zeroed.logged []) = .error .divisionByZero (zeroed.logged []) := by
  intro divide
  have h : divide.call zeroed = .error .divisionByZero zeroed := by rfl
  exact ⟨trivial, not_false, h, (divide.check_failure_atomic trivial h not_false).2 []⟩

end LinearProgram
