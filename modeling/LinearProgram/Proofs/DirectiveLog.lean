import LinearProgram.Backend.Recording
import LinearProgram.Proofs.CallPlan

/-! Any backend, with a log of what it is told and of what it refuses. A call that goes through has
told the backend all it had to; one that is refused ends with the directive that was refused. -/

namespace LinearProgram

variable {α β γ δ : Type}

/-- What a backend was told, and whether it was accepted. -/
abbrev LogLine (α : Type) := LogEntry α × Bool

structure Logged (α β : Type) where
  log : List (LogLine α)
  backend : β

namespace Logged

def request (e : LogEntry α) (r : Request β γ) : Request (Logged α β) γ := fun b =>
  match r b.backend with
  | .ok a b' => .ok a ⟨b.log ++ [(e, true)], b'⟩
  | .error x b' => .error x ⟨b.log ++ [(e, false)], b'⟩

theorem request_of_ok {e : LogEntry α} {r : Request β γ} {b : Logged α β} {a : γ} {b' : β}
    (h : r b.backend = .ok a b') : request e r b = .ok a ⟨b.log ++ [(e, true)], b'⟩ := by
  simp only [request, h]

theorem request_of_error {e : LogEntry α} {r : Request β γ} {b : Logged α β} {x : BackendError}
    {b' : β} (h : r b.backend = .error x b') :
    request e r b = .error x ⟨b.log ++ [(e, false)], b'⟩ := by
  simp only [request, h]

instance [Backend α β] : Backend α (Logged α β) where
  send d := request (.sent d) (Backend.send d)
  setMaximize b := ⟨b.log ++ [(.setMaximize, true)], Backend.setMaximize b.backend⟩
  solve := request .solve Backend.solve
  values b := Backend.values b.backend
  columnCount b := Backend.columnCount b.backend
  rowCount b := Backend.rowCount b.backend
  column b := Backend.column b.backend
  objectiveTerms b := Backend.objectiveTerms b.backend
  save path files := request .saveModel (Backend.save path files)
  load path files := request .loadModel (Backend.load path files)

end Logged

namespace Model

/-- The model over a backend that goes on with the given log. -/
def logged (m : Model α β) (log : List (LogLine α)) : Model α (Logged α β) :=
  ⟨⟨log, m.backend⟩, m.registry, m.rows, m.columns, m.objective, m.state, m.poisoned, m.events⟩

def unlogged (m : Model α (Logged α β)) : Model α β :=
  ⟨m.backend.backend, m.registry, m.rows, m.columns, m.objective, m.state, m.poisoned, m.events⟩

@[simp] theorem unlogged_logged (m : Model α β) (log : List (LogLine α)) :
    (m.logged log).unlogged = m := rfl

end Model

def ModelError.IsRefusal : ModelError α → Prop
  | .backend .. => True
  | _ => False

namespace Call

/-- Where the call succeeds, the backend has accepted all of `l`, and `Q` holds. Where it fails,
the backend has refused one of `l` after those before it, and the model is unusable. -/
def Tells (x : Call α (Logged α β) γ) (l : List (LogEntry α))
    (Q : γ → Model α (Logged α β) → Prop) (m : Model α (Logged α β)) : Prop :=
  match x m with
  | .ok a m' => m'.backend.log = m.backend.log ++ l.map (·, true) ∧ Q a m'
  | .error e m' => e.IsRefusal ∧ m'.poisoned = true ∧ ∃ pre d post, l = pre ++ d :: post ∧
      m'.backend.log = m.backend.log ++ pre.map (·, true) ++ [(d, false)]

variable {m : Model α (Logged α β)} {x : Call α (Logged α β) γ} {l k : List (LogEntry α)}
  {Q : γ → Model α (Logged α β) → Prop} {S : δ → Model α (Logged α β) → Prop}

theorem tells_of_ok {a : γ} {m' : Model α (Logged α β)} (hx : x m = .ok a m')
    (hlog : m'.backend.log = m.backend.log ++ l.map (·, true)) (hq : Q a m') : Tells x l Q m := by
  simp only [Tells, hx]
  exact ⟨hlog, hq⟩

theorem tells_of_error {e : ModelError α} {m' : Model α (Logged α β)} {pre post : List (LogEntry α)}
    {d : LogEntry α} (hx : x m = .error e m') (he : e.IsRefusal) (hp : m'.poisoned = true)
    (hlog : m'.backend.log = m.backend.log ++ pre.map (·, true) ++ [(d, false)]) :
    Tells x (pre ++ d :: post) Q m := by
  simp only [Tells, hx]
  exact ⟨he, hp, pre, d, post, rfl, hlog⟩

theorem Tells.cases (h : Tells x l Q m) :
    (∃ a m', x m = .ok a m' ∧ m'.backend.log = m.backend.log ++ l.map (·, true) ∧ Q a m') ∨
      ∃ e m' pre d post, x m = .error e m' ∧ e.IsRefusal ∧ m'.poisoned = true ∧
        l = pre ++ d :: post ∧
        m'.backend.log = m.backend.log ++ pre.map (·, true) ++ [(d, false)] := by
  unfold Tells at h
  cases hx : x m with
  | ok a m' =>
    simp only [hx] at h
    exact .inl ⟨a, m', rfl, h⟩
  | error e m' =>
    simp only [hx] at h
    obtain ⟨he, hp, pre, d, post, hl, hlog⟩ := h
    exact .inr ⟨e, m', pre, d, post, rfl, he, hp, hl, hlog⟩

theorem Tells.bind {f : γ → Call α (Logged α β) δ} (h : Tells x l Q m)
    (hf : ∀ a m', Q a m' → Tells (f a) k S m') : Tells (x >>= f) (l ++ k) S m := by
  rcases h.cases with ⟨a, m', hx, hlog, hq⟩ | ⟨e, m', pre, d, post, hx, he, hp, rfl, hlog⟩
  · rcases (hf a m' hq).cases with
      ⟨b, n, hy, hlog', hs⟩ | ⟨e, n, pre, d, post, hy, he, hp, rfl, hlog'⟩
    · exact tells_of_ok ((bind_of_ok hx).trans hy) (by simp [hlog', hlog]) hs
    · rw [← List.append_assoc]
      exact tells_of_error ((bind_of_ok hx).trans hy) he hp (by simp [hlog', hlog])
  · rw [List.append_assoc, List.cons_append]
    exact tells_of_error (bind_of_error hx) he hp hlog

theorem Tells.bind_silent {f : γ → Call α (Logged α β) δ} (h : Tells x l Q m)
    (hf : ∀ a m', Q a m' → Tells (f a) [] S m') : Tells (x >>= f) l S m :=
  List.append_nil l ▸ h.bind hf

theorem tells_nothing {a : γ} {m' : Model α (Logged α β)} (hx : x m = .ok a m')
    (hlog : m'.backend.log = m.backend.log) (hq : Q a m') : Tells x [] Q m :=
  tells_of_ok hx (by simp [hlog]) hq

theorem Tells.silent_bind {f : γ → Call α (Logged α β) δ} {a : γ} {n : Model α (Logged α β)}
    (hx : x m = .ok a n) (hlog : n.backend.log = m.backend.log) (hf : Tells (f a) l S n) :
    Tells (x >>= f) l S m := by
  have h : Tells x [] (fun b m' => b = a ∧ m' = n) m := tells_nothing hx hlog ⟨rfl, rfl⟩
  refine h.bind ?_
  rintro _ _ ⟨rfl, rfl⟩
  exact hf

theorem tells_request {e : LogEntry α} {r : Request β γ} {operation : Operation}
    (hq : ∀ a b, Q a { m with backend := b }) :
    Tells (request operation (Logged.request e r)) [e] Q m := by
  unfold Tells request Logged.request
  cases r m.backend.backend with
  | ok a b => exact ⟨rfl, hq a _⟩
  | error x b => exact ⟨trivial, rfl, [], e, [], rfl, by simp [Model.poison, Model.report]⟩

variable [Backend α β]

theorem tells_send {d : Directive α} {Q : Unit → Model α (Logged α β) → Prop}
    (hq : ∀ b, Q () { m with backend := b }) : Tells (send d) [.sent d] Q m :=
  tells_request fun _ b => hq b

theorem tells_sendAll {l : List (Directive α)} {Q : Unit → Model α (Logged α β) → Prop}
    (hq : ∀ b, Q () { m with backend := b }) : Tells (sendAll l) (l.map .sent) Q m := by
  induction l generalizing m with
  | nil => exact tells_nothing rfl rfl (hq m.backend)
  | cons d l ih =>
    refine Tells.bind (l := [.sent d]) (Q := fun _ n => ∃ b, n = { m with backend := b })
      (tells_send fun b => ⟨b, rfl⟩) ?_
    rintro _ _ ⟨b, rfl⟩
    exact ih fun b => hq b

end Call

end LinearProgram
