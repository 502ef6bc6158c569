import LinearProgram.Model.Expression
import LinearProgram.Model.Relation

/-! What has to hold of the parts of a call where the whole of it succeeds. -/

namespace LinearProgram.Call

variable {α β γ δ : Type} {m m' : Model α β}

theorem bind_eq_ok_iff {x : Call α β γ} {f : γ → Call α β δ} {d : δ} :
    (x >>= f) m = .ok d m' ↔ ∃ a m₁, x m = .ok a m₁ ∧ f a m₁ = .ok d m' := by
  show EStateM.bind x f m = _ ↔ _
  unfold EStateM.bind
  cases x m with
  | ok a m₁ =>
    constructor
    · exact fun h => ⟨a, m₁, rfl, h⟩
    · rintro ⟨_, _, ⟨rfl, rfl⟩, h⟩
      exact h
  | error e m₁ => simp

theorem bind_of_ok {x : Call α β γ} {f : γ → Call α β δ} {a : γ} {m₁ : Model α β}
    (h : x m = .ok a m₁) : (x >>= f) m = f a m₁ := by
  show EStateM.bind x f m = _
  simp only [EStateM.bind, h]

theorem bind_of_error {x : Call α β γ} {f : γ → Call α β δ} {e : ModelError α} {m₁ : Model α β}
    (h : x m = .error e m₁) : (x >>= f) m = .error e m₁ := by
  show EStateM.bind x f m = _
  simp only [EStateM.bind, h]

theorem pure_eq_ok_iff {a b : γ} : (pure a : Call α β γ) m = .ok b m' ↔ a = b ∧ m = m' := by
  show EStateM.Result.ok a m = _ ↔ _
  simp

theorem throw_ne_ok {e : ModelError α} {a : γ} : (throw e : Call α β γ) m ≠ .ok a m' := by
  show EStateM.Result.error e m ≠ _
  simp

theorem modify_eq_ok_iff {f : Model α β → Model α β} {u : Unit} :
    (modify f : Call α β Unit) m = .ok u m' ↔ f m = m' := by
  show EStateM.Result.ok () (f m) = _ ↔ _
  simp

theorem ask_eq_ok_iff {f : Model α β → Except (ModelError α) γ} {a : γ} :
    ask f m = .ok a m' ↔ f m = .ok a ∧ m = m' := by
  simp only [ask]
  split <;> simp_all

theorem ite_throw_eq_ok_iff {c : Prop} [Decidable c] {e : ModelError α} {x : Call α β γ} {a : γ} :
    (if c then throw e else x) m = .ok a m' ↔ ¬ c ∧ x m = .ok a m' := by
  by_cases h : c
  · simp [h, throw_ne_ok]
  · simp [h]

theorem report_eq_ok_iff {e : Event} {u : Unit} :
    report e m = .ok u m' ↔ m.report e = m' :=
  modify_eq_ok_iff

theorem resolve_eq_ok_iff {v : Variable} {c : ColumnId} :
    resolve v m = .ok c m' ↔ m.registry.resolve v = .ok c ∧ m = m' :=
  ask_eq_ok_iff

theorem info_eq_ok_iff {v : Variable} {i : VariableInfo α} :
    info v m = .ok i m' ↔ m.registry.info v = .ok i ∧ m = m' :=
  ask_eq_ok_iff

theorem usable_eq_ok_iff {u : Unit} :
    ask Model.usable m = .ok u m' ↔ m.poisoned = false ∧ m = m' := by
  refine ask_eq_ok_iff.trans (and_congr_left fun _ => ?_)
  unfold Model.usable
  split <;> simp_all

theorem request_of_ok {r : Request β γ} {operation : Operation} {a : γ} {b : β}
    (h : r m.backend = .ok a b) : request operation r m = .ok a { m with backend := b } := by
  simp only [request, h]

theorem request_of_error {r : Request β γ} {operation : Operation} {e : BackendError} {b : β}
    (h : r m.backend = .error e b) :
    request operation r m =
      .error (.backend operation e) ({ m with backend := b }.poison operation e) := by
  simp only [request, h]

theorem buildable_eq_ok_iff {u : Unit} :
    buildable m = .ok u m' ↔ (m.poisoned = false ∧ m.state = .unsolved) ∧ m = m' := by
  refine ask_eq_ok_iff.trans (and_congr_left fun _ => ?_)
  unfold Model.buildable
  split
  · simp_all
  · split <;> simp_all

theorem checkDomain_eq_ok_iff {d : Domain} {u : Unit} :
    checkDomain d m = .ok u m' ↔ d.isSupported = true ∧ m = m' := by
  refine ask_eq_ok_iff.trans (and_congr_left fun _ => ?_)
  unfold Domain.check
  split <;> simp_all [Except.map]

theorem checkName_eq_ok_iff {name : String} {u : Unit} :
    checkName name m = .ok u m' ↔ m.registry.isTaken name = false ∧ m = m' := by
  refine ask_eq_ok_iff.trans (and_congr_left fun _ => ?_)
  split <;> simp_all

variable [Scalar α]

theorem checkConstant_eq_ok_iff {value : α} {d : Domain} {u : Unit} :
    checkConstant value d m = .ok u m' ↔
      (d.isSupported = true ∧ d.admits value = true) ∧ m = m' := by
  simp only [checkConstant, bind_eq_ok_iff, checkDomain_eq_ok_iff, ite_throw_eq_ok_iff,
    pure_eq_ok_iff]
  constructor
  · rintro ⟨_, m₁, ⟨hd, rfl⟩, ha, -, rfl⟩
    exact ⟨⟨hd, by simpa using ha⟩, rfl⟩
  · rintro ⟨⟨hd, ha⟩, rfl⟩
    exact ⟨(), m, ⟨hd, rfl⟩, by simpa using ha, trivial, rfl⟩

theorem checkFinite_eq_ok_iff {k : α} {u : Unit} :
    checkFinite k m = .ok u m' ↔ Scalar.isFinite k = true ∧ m = m' := by
  unfold checkFinite
  split <;> simp_all [pure_eq_ok_iff, throw_ne_ok]

end LinearProgram.Call
