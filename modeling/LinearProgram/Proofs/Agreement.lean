import LinearProgram.Proofs.CallPlan

/-! Two models over backends of their own, put through the same call. Where each step of a plan
keeps them alike, so does the plan as a whole. -/

namespace LinearProgram

variable {α β β' γ γ' δ δ' : Type}

/-- Both pass, with what `D` relates, or both fail for one reason. -/
def Concur {ε : Type} (D : γ → γ' → Prop) (x : Except ε γ) (y : Except ε γ') : Prop :=
  match x, y with
  | .ok a, .ok b => D a b
  | .error e, .error e' => e = e'
  | _, _ => False

namespace Concur

variable {ε : Type} {D : γ → γ' → Prop} {x : Except ε γ} {y : Except ε γ'}

theorem bind {D' : δ → δ' → Prop} {f : γ → Except ε δ} {g : γ' → Except ε δ'} (h : Concur D x y)
    (hf : ∀ a b, D a b → Concur D' (f a) (g b)) : Concur D' (x >>= f) (y >>= g) := by
  cases x <;> cases y
  · exact h
  · exact h.elim
  · exact h.elim
  · exact hf _ _ h

theorem same (x : Except ε γ) {D : δ → δ' → Prop} {f : γ → Except ε δ} {g : γ → Except ε δ'}
    (h : ∀ a, Concur D (f a) (g a)) : Concur D (x >>= f) (x >>= g) := by
  cases x with
  | ok a => exact h a
  | error e => rfl

end Concur

namespace Call

/-- Both calls succeed, in states related by `S`, or both fail for one reason, related by `E`. -/
def Agree (x : Call α β γ) (y : Call α β' γ')
    (S : γ → γ' → Model α β → Model α β' → Prop) (E : Model α β → Model α β' → Prop)
    (m : Model α β) (n : Model α β') : Prop :=
  match x m, y n with
  | .ok a m', .ok b n' => S a b m' n'
  | .error e m', .error e' n' => e = e' ∧ E m' n'
  | _, _ => False

variable {m m' : Model α β} {n n' : Model α β'} {x : Call α β γ} {y : Call α β' γ'}
  {S : γ → γ' → Model α β → Model α β' → Prop} {T : δ → δ' → Model α β → Model α β' → Prop}
  {E : Model α β → Model α β' → Prop}

theorem agree_of_ok {a : γ} {b : γ'} (hx : x m = .ok a m') (hy : y n = .ok b n')
    (h : S a b m' n') : Agree x y S E m n := by
  simp only [Agree, hx, hy]
  exact h

theorem agree_of_error {e : ModelError α} (hx : x m = .error e m') (hy : y n = .error e n')
    (h : E m' n') : Agree x y S E m n := by
  simp only [Agree, hx, hy]
  exact ⟨trivial, h⟩

theorem Agree.cases (h : Agree x y S E m n) :
    (∃ a m' b n', x m = .ok a m' ∧ y n = .ok b n' ∧ S a b m' n') ∨
      ∃ e m' n', x m = .error e m' ∧ y n = .error e n' ∧ E m' n' := by
  unfold Agree at h
  cases hx : x m <;> cases hy : y n <;> simp only [hx, hy] at h
  · exact .inl ⟨_, _, _, _, rfl, rfl, h⟩
  · obtain ⟨rfl, he⟩ := h
    exact .inr ⟨_, _, _, rfl, rfl, he⟩

/-- A step that each of the two takes by itself. -/
theorem Agree.after {f : γ → Call α β δ} {g : γ' → Call α β' δ'} {a : γ} {b : γ'}
    (hx : x m = .ok a m') (hy : y n = .ok b n') (h : Agree (f a) (g b) T E m' n') :
    Agree (x >>= f) (y >>= g) T E m n := by
  unfold Agree at h ⊢
  rw [bind_of_ok hx, bind_of_ok hy]
  exact h

theorem Agree.bind {f : γ → Call α β δ} {g : γ' → Call α β' δ'} (h : Agree x y S E m n)
    (hf : ∀ a b m' n', S a b m' n' → Agree (f a) (g b) T E m' n') :
    Agree (x >>= f) (y >>= g) T E m n := by
  rcases h.cases with ⟨a, m', b, n', hx, hy, hs⟩ | ⟨e, m', n', hx, hy, he⟩
  · exact .after hx hy (hf a b m' n' hs)
  · exact agree_of_error (bind_of_error hx) (bind_of_error hy) he

theorem Agree.mono {S' : γ → γ' → Model α β → Model α β' → Prop}
    {E' : Model α β → Model α β' → Prop} (h : Agree x y S E m n)
    (hs : ∀ a b m' n', S a b m' n' → S' a b m' n') (he : ∀ m' n', E m' n' → E' m' n') :
    Agree x y S' E' m n := by
  rcases h.cases with ⟨a, m', b, n', hx, hy, h⟩ | ⟨e, m', n', hx, hy, h⟩
  · exact agree_of_ok hx hy (hs a b m' n' h)
  · exact agree_of_error hx hy (he m' n' h)

theorem agree_ask {f : Model α β → Except (ModelError α) γ}
    {g : Model α β' → Except (ModelError α) γ}
    {S : γ → γ → Model α β → Model α β' → Prop} (h : f m = g n) (hs : ∀ a, S a a m n) (he : E m n) :
    Agree (ask f) (ask g) S E m n := by
  simp only [Agree, ask, h]
  cases g n with
  | ok a => exact hs a
  | error e => exact ⟨rfl, he⟩

end Call

open Call

variable [Backend α β] [Backend α β']

/-- What each step of a plan does to a relation between models. Where one backend refuses a
directive, so does the other, for the same reason. -/
structure Simulation (R E : Model α β → Model α β' → Prop) : Prop where
  send (d : Directive α) {m : Model α β} {n : Model α β'} (h : R m n) :
    Agree (send d) (send d) (fun _ _ => R) E m n
  setMaximize {m : Model α β} {n : Model α β'} (h : R m n) :
    R { m with backend := Backend.setMaximize m.backend }
      { n with backend := Backend.setMaximize n.backend }
  report (e : Event) {m : Model α β} {n : Model α β'} (h : R m n) : R (m.report e) (n.report e)
  column {m : Model α β} {n : Model α β'} (h : R m n) :
    R { m with columns := m.columns + 1 } { n with columns := n.columns + 1 }
  row {m : Model α β} {n : Model α β'} (h : R m n) :
    m.rows = n.rows ∧ R { m with rows := m.rows + 1 } { n with rows := n.rows + 1 }
  objective (row : LinearRow α) {m : Model α β} {n : Model α β'} (h : R m n) :
    R { m with objective := some row } { n with objective := some row }
  nextColumn {m : Model α β} {n : Model α β'} (h : R m n) :
    m.registry.nextColumn = n.registry.nextColumn

namespace Simulation

variable {R R' E : Model α β → Model α β' → Prop} {m : Model α β} {n : Model α β'}

theorem sendAll (h : Simulation R E) (hr : R m n) (ds : List (Directive α)) :
    Agree (sendAll ds) (sendAll ds) (fun _ _ => R) E m n := by
  induction ds generalizing m n with
  | nil => exact hr
  | cons d ds ih => exact (h.send d hr).bind fun _ _ m' n' hr' => ih hr'

variable [Scalar α]

theorem emitRow (h : Simulation R E) (hr : R m n) (row : LinearRow α) (sense : Sense) (bound : α) :
    Agree (emitRow row sense bound) (emitRow row sense bound) (fun _ _ => R) E m n := by
  refine (h.send _ hr).bind fun _ _ m' n' hr' => ?_
  obtain ⟨hrows, hadd⟩ := h.row hr'
  have hreport :=
    h.report (.emittedRow ⟨m'.rows + 1⟩ row.terms.length sense (Scalar.text bound)) hadd
  have hrow : (RowId.mk (m'.rows + 1)) = ⟨n'.rows + 1⟩ := by rw [hrows]
  refine agree_of_ok rfl rfl ?_
  exact hrow ▸ hreport

/-- Variables that differ at most in what the backend is not told. -/
theorem allocate (h : Simulation R E) (hr : R m n) {i j : VariableInfo α} (hname : i.name = j.name)
    (hdomain : i.domain = j.domain) (hd : i.domain.isSupported = true)
    {S : Variable → Variable → Model α β → Model α β' → Prop}
    (hs : ∀ c m' n', R m' n' → S (m'.registry.handle c) (n'.registry.handle c)
      { m' with registry := m'.registry.insert i } { n' with registry := n'.registry.insert j }) :
    Agree (allocate i) (allocate j) S E m n := by
  obtain ⟨name, domain, k, l⟩ := i
  obtain rfl : name = j.name := hname
  obtain rfl : domain = j.domain := hdomain
  have hm : (ask fun m => .ok m.registry.nextColumn : Call α β ColumnId) m =
      .ok n.registry.nextColumn m := by rw [← h.nextColumn hr]; rfl
  refine Agree.after hm rfl ?_
  refine (h.send _ hr).bind fun _ _ m₁ n₁ h₁ => ?_
  refine Agree.after rfl rfl ((h.send _ (h.column h₁)).bind fun _ _ m₂ n₂ h₂ => ?_)
  refine Agree.bind (S := fun _ _ => R) ?_ fun _ _ m₃ n₃ h₃ => ?_
  · exact Agree.after (a := ()) (b := ()) (checkDomain_eq_ok_iff.2 ⟨hd, rfl⟩)
      (checkDomain_eq_ok_iff.2 ⟨hd, rfl⟩) (h.sendAll h₂ _)
  · exact Agree.after rfl rfl (agree_of_ok rfl rfl (hs _ _ _ (h.report _ h₃)))

theorem tie (h : Simulation R E) (hr : R m n) (row : Option (LinearRow α × α)) :
    Agree (tie row) (tie row) (fun _ _ => R) E m n := by
  cases row with
  | none => exact hr
  | some t => exact h.emitRow hr t.1 .equal t.2

theorem draft (h : Simulation R E) (h' : Simulation R' E) {p q : Draft α}
    (hr : R { m with registry := { m.registry with anonymous := p.anonymous } }
      { n with registry := { n.registry with anonymous := q.anonymous } })
    (hname : p.info.name = q.info.name) (hdomain : p.info.domain = q.info.domain)
    (hd : p.info.domain.isSupported = true) (hrow : p.row = q.row) {V : Variable → Variable → Prop}
    (hs : ∀ c m' n', R m' n' → V (m'.registry.handle c) (n'.registry.handle c) ∧
      R' { m' with registry := m'.registry.insert p.info }
        { n' with registry := n'.registry.insert q.info }) :
    Agree p.execute q.execute (fun v w m' n' => V v w ∧ R' m' n') E m n := by
  have ha := h.allocate (S := fun v w m' n' => V v w ∧ R' m' n') hr hname hdomain hd hs
  refine Agree.after rfl rfl (ha.bind fun v w m₁ n₁ h₁ => ?_)
  rw [hrow]
  exact (h'.tie h₁.2 q.row).bind fun _ _ m₂ n₂ h₂ => ⟨h₁.1, h₂⟩

theorem relation (h : Simulation R E) (hr : R m n) (a b : ColumnId) (sense : Sense) :
    Agree (Plan.relation a b sense).execute (Plan.relation a b sense).execute
      (fun r s m' n' => r = s ∧ R m' n') E m n :=
  (h.emitRow hr _ _ _).bind fun _ _ _ _ h' => Agree.after rfl rfl ⟨rfl, h.report _ h'⟩

theorem maximized (h : Simulation R E) (hr : R m n) (row : LinearRow α) :
    Agree (Plan.objective row).execute (Plan.objective row).execute
      (fun r s m' n' => r = s ∧ R m' n') E m n := by
  refine Agree.after rfl rfl ((h.send _ (h.setMaximize hr)).bind fun _ _ m₁ n₁ h₁ => ?_)
  exact Agree.after rfl rfl (Agree.after rfl rfl ⟨rfl, h.objective row (h.report _ h₁)⟩)

end Simulation

end LinearProgram
