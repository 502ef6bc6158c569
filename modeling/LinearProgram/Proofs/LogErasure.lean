import LinearProgram.Proofs.Agreement
import LinearProgram.Proofs.PlanDirectives

/-! A log changes nothing. Whatever is called, a model over the logged backend does what the model
without a log does. -/

namespace LinearProgram

open Call

variable {α β γ : Type} {m : Model α (Logged α β)} {n : Model α β}

def Erases (m : Model α (Logged α β)) (n : Model α β) : Prop :=
  m.unlogged = n

/-- Both calls give the same, in the same state but for the log. -/
def AgreeErased (x : Call α (Logged α β) γ) (y : Call α β γ) (m : Model α (Logged α β))
    (n : Model α β) : Prop :=
  Agree x y (fun r s m' n' => r = s ∧ Erases m' n') Erases m n

namespace AgreeErased

variable {δ : Type} {x : Call α (Logged α β) γ} {y : Call α β γ}

theorem bind {f : γ → Call α (Logged α β) δ} {g : γ → Call α β δ} (h : AgreeErased x y m n)
    (hf : ∀ r m', AgreeErased (f r) (g r) m' m'.unlogged) :
    AgreeErased (x >>= f) (y >>= g) m n := by
  refine Agree.bind h ?_
  rintro r _ m' _ ⟨rfl, rfl⟩
  exact hf r m'

theorem ask {f : Model α (Logged α β) → Except (ModelError α) γ}
    {g : Model α β → Except (ModelError α) γ} (h : f m = g m.unlogged) :
    AgreeErased (Call.ask f) (Call.ask g) m m.unlogged :=
  agree_ask h (fun _ => ⟨rfl, rfl⟩) rfl

theorem request (e : LogEntry α) (r : Request β γ) (operation : Operation) :
    AgreeErased (Call.request operation (Logged.request e r)) (Call.request operation r) m
      m.unlogged := by
  cases h : r m.backend.backend with
  | ok a b =>
    exact agree_of_ok (request_of_ok (Logged.request_of_ok h)) (request_of_ok h) ⟨rfl, rfl⟩
  | error x b =>
    exact agree_of_error (request_of_error (Logged.request_of_error h)) (request_of_error h) rfl

theorem modify {f : Model α (Logged α β) → Model α (Logged α β)} {g : Model α β → Model α β}
    (h : (f m).unlogged = g m.unlogged) :
    AgreeErased (modify f) (modify g) m m.unlogged :=
  ⟨rfl, h⟩

theorem pure (r : γ) : AgreeErased (α := α) (Pure.pure r) (Pure.pure r) m m.unlogged :=
  ⟨rfl, rfl⟩

end AgreeErased

variable [Backend α β]

theorem simulation_erases :
    Simulation (Erases : Model α (Logged α β) → Model α β → Prop) Erases where
  send d m n h := by
    subst h
    exact (AgreeErased.request _ _ _).mono (fun _ _ _ _ h => h.2) fun _ _ h => h
  setMaximize := by
    rintro m _ rfl
    rfl
  report e := by
    rintro m _ rfl
    rfl
  column := by
    rintro m _ rfl
    rfl
  row := by
    rintro m _ rfl
    exact ⟨rfl, rfl⟩
  objective row := by
    rintro m _ rfl
    rfl
  nextColumn := by
    rintro m _ rfl
    rfl

variable [Scalar α]

theorem Plan.agree_erased {p : Plan α} (hp : p.Sound m.registry) :
    AgreeErased p.execute p.execute m m.unlogged := by
  cases p with
  | column p =>
    refine AgreeErased.bind ?_ fun v m' => .pure _
    let n := { m with registry := { m.registry with anonymous := p.anonymous } }
    refine simulation_erases.draft simulation_erases (show Erases n n.unlogged from rfl) rfl rfl
      hp.domain rfl ?_
    rintro c m' _ rfl
    exact ⟨rfl, rfl⟩
  | relation a b sense => exact simulation_erases.relation rfl a b sense
  | objective row => exact simulation_erases.maximized rfl row

theorem Instruction.agree_erased (i : Instruction α) :
    AgreeErased i.call i.call m m.unlogged := by
  have hchecks := m.checks_plan i
  unfold AgreeErased Agree
  rw [instruction_eq, instruction_eq]
  cases hp : m.plan i with
  | error e =>
    have hn : m.unlogged.plan i = .error e := hp
    rw [hn]
    exact ⟨rfl, rfl⟩
  | ok p =>
    have hn : m.unlogged.plan i = .ok p := hp
    rw [hn]
    rw [hp] at hchecks
    exact Plan.agree_erased hchecks.2

omit [Scalar α] in
theorem agree_erased_save (path : String) (files : Files) :
    AgreeErased (save path files) (save path files) m m.unlogged := by
  refine (AgreeErased.ask rfl).bind fun _ m₁ => ?_
  refine Agree.after rfl rfl ?_
  cases h : Backend.save path files m₁.backend.backend with
  | ok r b =>
    have hl : Backend.save path files m₁.backend = .ok r _ := Logged.request_of_ok h
    have hn : Backend.save path files m₁.unlogged.backend = .ok r b := h
    simp only [hl, hn]
    exact Agree.after rfl rfl ⟨rfl, rfl⟩
  | error e b =>
    have hl : Backend.save path files m₁.backend = .error e _ := Logged.request_of_error h
    have hn : Backend.save path files m₁.unlogged.backend = .error e b := h
    simp only [hl, hn]
    exact Agree.after rfl rfl ⟨rfl, rfl⟩

theorem Action.agree_erased (a : Action α) : AgreeErased a.call a.call m m.unlogged := by
  cases a with
  | build i => exact i.agree_erased
  | solve =>
    refine AgreeErased.bind ?_ fun s m' => .pure _
    refine (AgreeErased.ask rfl).bind fun _ m₁ => ?_
    refine (AgreeErased.modify rfl).bind fun _ m₂ => ?_
    refine Agree.after rfl rfl ((AgreeErased.modify rfl).bind fun _ m₃ => ?_)
    refine (AgreeErased.request _ _ _).bind fun r m₄ => ?_
    refine (AgreeErased.modify rfl).bind fun _ m₅ => ?_
    exact (AgreeErased.modify rfl).bind fun _ m₆ => .pure _
  | save path files => exact (agree_erased_save path files).bind fun s m' => .pure _
  | load path files =>
    refine AgreeErased.bind ?_ fun s m' => .pure _
    refine (AgreeErased.ask rfl).bind fun _ m₁ => ?_
    refine (AgreeErased.request _ _ _).bind fun r m₂ => ?_
    refine (AgreeErased.modify rfl).bind fun _ m₃ => ?_
    refine Agree.after rfl rfl ?_
    cases h : Model.heldVariables m₃.backend with
    | error e =>
      have hn : Model.heldVariables m₃.unlogged.backend = .error e := h
      simp only [hn]
      exact Agree.after rfl rfl (agree_of_error rfl rfl rfl)
    | ok entries =>
      have hn : Model.heldVariables m₃.unlogged.backend = .ok entries := h
      simp only [hn]
      refine (AgreeErased.modify rfl).bind fun _ m₄ => ?_
      exact Agree.after rfl rfl ((AgreeErased.modify rfl).bind fun _ m₅ => .pure _)
  | value v => exact AgreeErased.ask rfl

namespace Action

theorem answer_unlogged (a : Action α) (m : Model α (Logged α β)) :
    a.answer m.unlogged = a.answer m := by
  rcases (a.agree_erased (m := m)).cases with ⟨r, m', s, n, hm, hn, rfl, -⟩ | ⟨e, m', n, hm, hn, -⟩
  · rw [answer_of_ok hm, answer_of_ok hn]
  · rw [answer_of_error hm, answer_of_error hn]

theorem after_unlogged (a : Action α) (m : Model α (Logged α β)) :
    a.after m.unlogged = (a.after m).unlogged := by
  rcases (a.agree_erased (m := m)).cases with ⟨r, m', s, n, hm, hn, -, rfl⟩ | ⟨e, m', n, hm, hn, rfl⟩
  · rw [after_of_ok hm, after_of_ok hn]
  · rw [after_of_error hm, after_of_error hn]

end Action

namespace Model

theorem after_unlogged (m : Model α (Logged α β)) (as : List (Action α)) :
    m.unlogged.after as = (m.after as).unlogged := by
  induction as generalizing m with
  | nil => rfl
  | cons a as ih => rw [after_cons, after_cons, a.after_unlogged, ih]

theorem history_unlogged (m : Model α (Logged α β)) (as : List (Action α)) :
    m.unlogged.history as = m.history as := by
  induction as generalizing m with
  | nil => rfl
  | cons a as ih => rw [history, history, a.answer_unlogged, a.after_unlogged, ih]

end Model

end LinearProgram
