import LinearProgram.Proofs.Plan

/-! Every building call is its checks, then the execution of the plan that they end in, whatever
the backend does. -/

namespace LinearProgram.Call

variable {α β γ δ ε : Type} {m : Model α β}

theorem ask_bind_eq {f : Model α β → Except (ModelError α) γ} {g : γ → Call α β δ}
    {q : γ → Except (ModelError α) ε} {k : ε → Call α β δ}
    (h : ∀ a, f m = .ok a → g a m = proceed (q a) k m) :
    (ask f >>= g) m = proceed (f m >>= q) k m := by
  cases hf : f m with
  | error e => exact bind_of_error (by simp [ask, hf])
  | ok a => exact (bind_of_ok (by simp [ask, hf])).trans (h a hf)

theorem checkDomain_bind_eq {d : Domain} {g : Unit → Call α β δ}
    {q : Unit → Except (ModelError α) ε} {f : ε → Call α β δ}
    (h : d.isSupported = true → g () m = proceed (q ()) f m) :
    (checkDomain d >>= g) m = proceed (discard d.check >>= q) f m := by
  apply ask_bind_eq
  intro u hu
  by_cases hd : d.isSupported = true
  · exact h hd
  · simp [Domain.check, hd, Except.map] at hu

theorem checkName_bind_eq {name : String} {g : Unit → Call α β δ}
    {q : Unit → Except (ModelError α) ε} {f : ε → Call α β δ}
    (h : g () m = proceed (q ()) f m) :
    (checkName name >>= g) m = proceed (m.registry.checkFree name >>= q) f m :=
  ask_bind_eq fun _ _ => h

theorem discard_resolve (v : Variable) :
    (discard (resolve v) : Call α β Unit) = ask fun m => discard (m.registry.resolve v) := by
  funext m
  show EStateM.map _ (ask _) m = _
  cases h : m.registry.resolve v <;> simp [EStateM.map, ask, h, discard, Functor.mapConst, Except.map]

theorem proceed_of_buildable {x : Except (ModelError α) γ} {f : γ → Call α β δ} {u : Unit}
    (h : m.buildable = .ok u) : proceed (do m.buildable; x) f m = proceed x f m := by
  rw [h]
  rfl

section Checks

variable [Scalar α]

theorem checkFinite_bind_eq {k : α} {g : Unit → Call α β δ} {q : Unit → Except (ModelError α) ε}
    {f : ε → Call α β δ} (h : g () m = proceed (q ()) f m) :
    (checkFinite k >>= g) m = proceed (LinearProgram.checkFinite k >>= q) f m := by
  unfold checkFinite LinearProgram.checkFinite
  cases Scalar.isFinite k with
  | true => exact h
  | false => rfl

theorem checkDivisor_bind_eq {k : α} {g : Unit → Call α β δ} {q : Unit → Except (ModelError α) ε}
    {f : ε → Call α β δ} (h : g () m = proceed (q ()) f m) :
    (if k == 0 then throw .divisionByZero >>= g else g () : Call α β δ) m =
      proceed (checkDivisor k >>= q) f m := by
  unfold checkDivisor
  cases k == 0 with
  | true => rfl
  | false => exact h

theorem checkConstant_bind_eq {value : α} {d : Domain} {g : Unit → Call α β δ}
    {q : Unit → Except (ModelError α) ε} {f : ε → Call α β δ}
    (h : d.isSupported = true → g () m = proceed (q ()) f m) :
    (checkConstant value d >>= g) m = proceed (d.checkConstant value >>= q) f m := by
  unfold checkConstant Domain.checkConstant
  rw [bind_assoc, bind_assoc]
  apply checkDomain_bind_eq
  intro hd
  cases d.admits value with
  | true => exact h hd
  | false => rfl

theorem sumRow_bind_eq {row : LinearRow α} {vs : List Variable} {g : LinearRow α → Call α β δ}
    {q : LinearRow α → Except (ModelError α) ε} {f : ε → Call α β δ}
    (h : ∀ row, g row m = proceed (q row) f m) :
    (sumRow row vs >>= g) m = proceed (m.registry.sumRow row vs >>= q) f m := by
  induction vs generalizing row with
  | nil => exact h row
  | cons v vs ih =>
    show ((resolve v >>= fun c => sumRow (row.add c 1) vs) >>= g) m =
      proceed ((m.registry.resolve v >>= fun c => m.registry.sumRow (row.add c 1) vs) >>= q) f m
    rw [bind_assoc, bind_assoc]
    apply ask_bind_eq
    intro c _
    exact ih

end Checks

theorem exists_of_request {r : Request β γ} {operation : Operation} {a : γ} {m' : Model α β}
    (h : request operation r m = .ok a m') : ∃ b, m' = { m with backend := b } := by
  unfold request at h
  cases hr : r m.backend with
  | ok a b =>
    simp only [hr] at h
    cases h
    exact ⟨b, rfl⟩
  | error e b => simp [hr] at h

variable [Backend α β]

theorem exists_of_sendAll {ds : List (Directive α)} {u : Unit} {m' : Model α β}
    (h : sendAll ds m = .ok u m') : ∃ b, m' = { m with backend := b } := by
  induction ds generalizing m with
  | nil =>
    obtain ⟨-, rfl⟩ := pure_eq_ok_iff.1 h
    exact ⟨m.backend, rfl⟩
  | cons d ds ih =>
    obtain ⟨_, m₁, h₁, h₂⟩ := bind_eq_ok_iff.1 h
    obtain ⟨b₁, rfl⟩ := exists_of_request h₁
    obtain ⟨b₂, rfl⟩ := ih h₂
    exact ⟨b₂, rfl⟩

variable [Scalar α]

/-- A variable that has been made resolves to the column that was next. -/
theorem registry_of_allocate {info : VariableInfo α} {v : Variable} {m' : Model α β}
    (h : allocate info m = .ok v m') :
    v = m.newHandle ∧ m'.registry = m.registry.insert info := by
  obtain ⟨c, _, hc, h⟩ := bind_eq_ok_iff.1 h
  obtain ⟨hc, rfl⟩ := ask_eq_ok_iff.1 hc
  cases hc
  obtain ⟨_, m₁, h₁, h⟩ := bind_eq_ok_iff.1 h
  obtain ⟨b₁, rfl⟩ := exists_of_request h₁
  obtain ⟨_, m₂, h₂, h⟩ := bind_eq_ok_iff.1 h
  obtain rfl := modify_eq_ok_iff.1 h₂
  obtain ⟨_, m₃, h₃, h⟩ := bind_eq_ok_iff.1 h
  obtain ⟨b₃, rfl⟩ := exists_of_request h₃
  obtain ⟨_, m₄, h₄, h⟩ := bind_eq_ok_iff.1 h
  obtain ⟨_, _, h₄, h₅⟩ := bind_eq_ok_iff.1 h₄
  obtain ⟨-, rfl⟩ := checkDomain_eq_ok_iff.1 h₄
  obtain ⟨b₅, rfl⟩ := exists_of_sendAll h₅
  cases h
  exact ⟨rfl, rfl⟩

/-- A new variable is never stale, so looking it up again cannot fail. -/
theorem allocate_resolve_bind (info : VariableInfo α) {f : Variable → ColumnId → Call α β γ} :
    (do let v ← allocate info
        let c ← resolve v
        f v c : Call α β γ) m =
      (do let v ← allocate info
          f v m.registry.nextColumn : Call α β γ) m := by
  cases h : allocate info m with
  | error e m' => rw [bind_of_error h, bind_of_error h]
  | ok v m' =>
    obtain ⟨rfl, hm⟩ := registry_of_allocate h
    have hr : resolve m.newHandle m' = .ok m.registry.nextColumn m' := by
      refine resolve_eq_ok_iff.2 ⟨Registry.resolve_eq_ok_iff.2 ?_, rfl⟩
      simp [hm, Model.newHandle, Registry.handle, Registry.insert, Registry.nextColumn,
        ColumnId.ofOffset, ColumnId.offset]
    rw [bind_of_ok h, bind_of_ok h, bind_of_ok hr]

theorem execute_of_no_row (info : VariableInfo α) (n : Nat) :
    Draft.execute ⟨info, n, none⟩ m =
      allocate info { m with registry := { m.registry with anonymous := n } } := by
  show (allocate info >>= fun v => (pure () >>= fun _ => pure v) : Call α β Variable) _ = _
  simp

theorem define_eq (d : Domain) (constant : Option α) (label : String) (operands : LinearRow α) :
    define d constant label operands m =
      proceed (m.registry.draftDefined d constant label operands) Draft.execute m := by
  apply checkDomain_bind_eq
  intro _
  have hresolve := allocate_resolve_bind (m := m.countName)
    ⟨Registry.generatedName m.registry.nextAnonymous, d, constant, some label⟩
    (f := fun v c => do
      emitRow (operands.add c (-1)) .equal 0
      return v)
  exact hresolve

theorem pin_eq {info : VariableInfo α} {value : α} :
    (do let v ← allocate info
        pin v value
        return v : Call α β Variable) m =
      (do let v ← allocate info
          emitRow (m.registry.pinRow value).1 .equal value
          return v : Call α β Variable) m := by
  simp only [pin, bind_assoc]
  exact allocate_resolve_bind info

theorem scale_eq (a : Variable) (k : α) (d : Domain) :
    scale a k d m =
      proceed (do m.buildable; m.registry.draftScaled d a k) Draft.execute m := by
  apply ask_bind_eq
  intro _ _
  apply checkFinite_bind_eq
  apply ask_bind_eq
  intro c _
  apply ask_bind_eq
  intro x _
  apply define_eq

theorem divide_eq (a : Variable) (k : α) (d : Domain) :
    divide a k d m =
      proceed (do m.buildable; m.registry.draftDivided d a k) Draft.execute m := by
  apply ask_bind_eq
  intro _ _
  apply checkFinite_bind_eq
  apply checkDivisor_bind_eq
  apply ask_bind_eq
  intro c _
  apply ask_bind_eq
  intro x _
  apply define_eq

theorem origin_eq (o : Origin α) (d : Domain) :
    o.call d m = proceed (do m.buildable; o.draft m.registry d) Draft.execute m := by
  cases o with
  | create name =>
    apply ask_bind_eq
    intro _ _
    apply checkDomain_bind_eq
    intro _
    apply checkName_bind_eq
    exact (execute_of_no_row _ _).symm
  | createAnonymous =>
    apply ask_bind_eq
    intro _ _
    apply checkDomain_bind_eq
    intro _
    exact (execute_of_no_row _ _).symm
  | fromConstant value =>
    apply ask_bind_eq
    intro _ _
    apply checkConstant_bind_eq
    intro _
    exact pin_eq (m := m.countName)
  | namedConstant name value =>
    apply ask_bind_eq
    intro _ _
    apply checkConstant_bind_eq
    intro _
    apply checkName_bind_eq
    exact pin_eq
  | sum a b =>
    apply ask_bind_eq
    intro _ _
    apply ask_bind_eq
    intro ca _
    apply ask_bind_eq
    intro cb _
    apply ask_bind_eq
    intro x _
    apply ask_bind_eq
    intro y _
    apply define_eq
  | negate a =>
    apply ask_bind_eq
    intro _ _
    apply ask_bind_eq
    intro c _
    apply ask_bind_eq
    intro x _
    apply define_eq
  | scale a k => exact scale_eq a k d
  | divide a k => exact divide_eq a k d
  | multiply a b =>
    apply ask_bind_eq
    intro _ hb
    apply ask_bind_eq
    intro x _
    apply ask_bind_eq
    intro y _
    cases x.constant <;> cases y.constant
    · rfl
    all_goals exact (scale_eq ..).trans (proceed_of_buildable hb)
  | divideBy a b =>
    apply ask_bind_eq
    intro _ hb
    rw [discard_resolve]
    apply ask_bind_eq
    intro _ _
    apply ask_bind_eq
    intro y _
    cases y.constant with
    | none => rfl
    | some k => exact (divide_eq ..).trans (proceed_of_buildable hb)

theorem maximizeSum_eq (vs : List Variable) :
    (do maximizeSum vs
        return Answer.done : Call α β (Answer α)) m =
      proceed (do m.buildable
                  let row ← m.registry.sumRow LinearRow.empty vs
                  return Plan.objective row) Plan.execute m := by
  unfold maximizeSum
  rw [bind_assoc]
  apply ask_bind_eq
  intro _ _
  rw [bind_assoc]
  apply sumRow_bind_eq
  intro row
  simp only [bind_assoc]
  rfl

/-- The checks decide alone whether the call is refused without a trace. -/
theorem instruction_eq (i : Instruction α) :
    i.call m = proceed (m.plan i) Plan.execute m := by
  cases i with
  | make o d =>
    have hplan : m.plan (.make o d) =
        (do m.buildable; o.draft m.registry d) >>= fun p => .ok (Plan.column p) :=
      (bind_assoc ..).symm
    have horigin := origin_eq (m := m) o d
    rw [hplan]
    show (o.call d >>= fun v => pure (Answer.made v) : Call α β (Answer α)) m = _
    -- the draft is executed within its plan, so the answer is given only after that
    cases hx : (do m.buildable; o.draft m.registry d) with
    | error e => exact bind_of_error (by rw [horigin, hx]; rfl)
    | ok p =>
      rw [hx] at horigin
      show EStateM.bind _ _ m = EStateM.bind _ _ m
      simp only [EStateM.bind, horigin]
      rfl
  | relate a b sense =>
    show ((_ >>= _) >>= _ : Call α β _) m = _
    simp only [bind_assoc]
    apply ask_bind_eq
    intro _ _
    apply ask_bind_eq
    intro ca _
    apply ask_bind_eq
    intro cb _
    rfl
  | maximize v => exact maximizeSum_eq [v]
  | maximizeSum vs => exact maximizeSum_eq vs

end LinearProgram.Call
