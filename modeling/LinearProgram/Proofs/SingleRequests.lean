import LinearProgram.Proofs.PlanDirectives

/-! The calls that come down to one request: solving, saving and loading. Each lemma says in which
model they end, by what the backend makes of the request. -/

namespace LinearProgram

theorem length_of_mapM {ε γ δ : Type} {f : γ → Except ε δ} {l : List γ} {l' : List δ}
    (h : l.mapM f = .ok l') : l'.length = l.length := by
  induction l generalizing l' with
  | nil =>
    cases h
    rfl
  | cons a l ih =>
    rw [List.mapM_cons] at h
    cases ha : f a with
    | error e => simp [ha, bind, Except.bind] at h
    | ok b =>
      cases hl : l.mapM f with
      | error e => simp [ha, hl, bind, Except.bind] at h
      | ok bs =>
        simp only [ha, hl, bind, Except.bind] at h
        cases h
        rw [List.length_cons, List.length_cons, ih hl]

namespace Call

variable {α β : Type} [Backend α β] {m : Model α β} {b : β} {e : BackendError}

theorem solve_of_not_open {x : ModelError α} (h : m.buildable = .error x) :
    solve m = .error x m :=
  bind_of_error (by simp [buildable, ask, h])

theorem solve_of_ok {raw : SolverStatus} {reported : List Event} (ho : m.Open)
    (h : Backend.solve m.backend = .ok (raw, reported) b) :
    ∃ events, solve m =
      .ok raw.shared { m with backend := b, state := .solved raw.shared, events } := by
  let m₁ := { m with state := .solving }
  let m₂ := m₁.report (.solving m.columns m.rows)
  have hb : buildable m = .ok () m := buildable_eq_ok_iff.2 ⟨ho, rfl⟩
  have hr : request .solve Backend.solve m₂ = .ok (raw, reported) { m₂ with backend := b } :=
    request_of_ok h
  rw [solve, bind_of_ok hb]
  exact ⟨_, bind_of_ok hr⟩

theorem solve_of_error (ho : m.Open) (h : Backend.solve m.backend = .error e b) :
    ∃ events, solve m = .error (.backend .solve e)
      { m with backend := b, state := .solving, poisoned := true, events } := by
  let m₁ := { m with state := .solving }
  let m₂ := m₁.report (.solving m.columns m.rows)
  have hb : buildable m = .ok () m := buildable_eq_ok_iff.2 ⟨ho, rfl⟩
  have hs : (modify fun n => { n with state := .solving } : Call α β Unit) m = .ok () m₁ := rfl
  have hg : (get : Call α β _) m₁ = .ok m₁ m₁ := rfl
  have hp : report (.solving m.columns m.rows) m₁ = .ok () m₂ := rfl
  have hr : request .solve Backend.solve m₂ = _ := request_of_error h
  rw [solve, bind_of_ok hb, bind_of_ok hs, bind_of_ok hg, bind_of_ok hp, bind_of_error hr]
  exact ⟨_, rfl⟩

variable {path : String} {files : Files}

theorem save_of_poisoned (h : m.poisoned = true) : save path files m = .error .poisoned m :=
  bind_of_error (by simp [ask, Model.usable, h])

theorem save_of_ok {files' : Files} {reported : List Event} (hp : m.poisoned = false)
    (h : Backend.save path files m.backend = .ok (files', reported) b) :
    save path files m = .ok files' { m with backend := b, events := m.events ++ reported } := by
  have hu : ask Model.usable m = .ok () m := usable_eq_ok_iff.2 ⟨hp, rfl⟩
  have hg : (get : Call α β _) m = .ok m m := rfl
  rw [save, bind_of_ok hu, bind_of_ok hg]
  simp only [h]
  rfl

theorem save_of_error (hp : m.poisoned = false)
    (h : Backend.save path files m.backend = .error e b) :
    save path files m = .error (.backend .saveModel e) { m with backend := b } := by
  have hu : ask Model.usable m = .ok () m := usable_eq_ok_iff.2 ⟨hp, rfl⟩
  have hg : (get : Call α β _) m = .ok m m := rfl
  rw [save, bind_of_ok hu, bind_of_ok hg]
  simp only [h]
  rfl

variable [Scalar α]

theorem load_of_poisoned (h : m.poisoned = true) : load path files m = .error .poisoned m :=
  bind_of_error (by simp [ask, Model.usable, h])

theorem load_of_error (hp : m.poisoned = false)
    (h : Backend.load path files m.backend = .error e b) :
    load path files m =
      .error (.backend .loadModel e) ({ m with backend := b }.poison .loadModel e) := by
  have hu : ask Model.usable m = .ok () m := usable_eq_ok_iff.2 ⟨hp, rfl⟩
  have hr : request .loadModel (Backend.load path files) m = _ := request_of_error h
  rw [load, bind_of_ok hu, bind_of_error hr]

/-- Here the backend has loaded a program, but does not give all of its columns away. -/
theorem load_of_unheld {reported : List Event} (hp : m.poisoned = false)
    (h : Backend.load path files m.backend = .ok reported b)
    (hb : Model.heldVariables b = .error e) :
    ∃ events, load path files m = .error (.backend .loadModel e)
      { m with backend := b, poisoned := true, events } := by
  have hu : ask Model.usable m = .ok () m := usable_eq_ok_iff.2 ⟨hp, rfl⟩
  have hr : request .loadModel (Backend.load path files) m = _ := request_of_ok h
  let m₁ : Model α β := { m with backend := b, events := m.events ++ reported }
  have hm : (modify fun n => { n with events := n.events ++ reported } : Call α β Unit)
      { m with backend := b } = .ok () m₁ := rfl
  have hg : (get : Call α β _) m₁ = .ok m₁ m₁ := rfl
  rw [load, bind_of_ok hu, bind_of_ok hr, bind_of_ok hm, bind_of_ok hg]
  simp only [m₁, hb]
  exact ⟨_, rfl⟩

theorem load_of_held {reported : List Event} {entries : List (VariableInfo α)}
    (hp : m.poisoned = false) (h : Backend.load path files m.backend = .ok reported b)
    (hb : Model.heldVariables b = .ok entries) :
    ∃ events, load path files m = .ok ⟨Backend.rowCount b, Backend.columnCount b⟩
      { ({ m with backend := b } : Model α β).adopt entries with events } := by
  have hu : ask Model.usable m = .ok () m := usable_eq_ok_iff.2 ⟨hp, rfl⟩
  have hr : request .loadModel (Backend.load path files) m = _ := request_of_ok h
  let m₁ : Model α β := { m with backend := b, events := m.events ++ reported }
  have hm : (modify fun n => { n with events := n.events ++ reported } : Call α β Unit)
      { m with backend := b } = .ok () m₁ := rfl
  have hg : (get : Call α β _) m₁ = .ok m₁ m₁ := rfl
  rw [load, bind_of_ok hu, bind_of_ok hr, bind_of_ok hm, bind_of_ok hg]
  simp only [m₁, hb]
  exact ⟨_, rfl⟩

theorem length_heldVariables {entries : List (VariableInfo α)}
    (h : Model.heldVariables b = .ok entries) : entries.length = Backend.columnCount b := by
  simpa using length_of_mapM h

end Call

end LinearProgram
