import LinearProgram.Proofs.DirectiveLog

/-! Plans that checks have passed name only columns that are there. So only the backend can refuse
them, and which directives they send is known beforehand. -/

namespace LinearProgram

variable {α β γ δ : Type}

/-- The row is over the first `n` columns. -/
def LinearRow.Within (row : LinearRow α) (n : Nat) : Prop :=
  ∀ t ∈ row.entries, 0 < t.1.number ∧ t.1.number ≤ n

namespace LinearRow.Within

variable {row : LinearRow α} {n : Nat}

theorem empty (n : Nat) : (LinearRow.empty : LinearRow α).Within n :=
  List.forall_mem_nil _

theorem mono {k : Nat} (h : row.Within n) (hk : n ≤ k) : row.Within k :=
  fun t ht => ⟨(h t ht).1, Nat.le_trans (h t ht).2 hk⟩

theorem add [Scalar α] (h : row.Within n) {c : ColumnId} (hc : 0 < c.number ∧ c.number ≤ n)
    (a : α) : (row.add c a).Within n := by
  intro t ht
  rcases mem_entries_add ht with he | ⟨s, hs, he⟩
  · exact he ▸ hc
  · exact he ▸ h s hs

end LinearRow.Within

section Checks

/-- What passes has the property, and what does not pass is no refusal of the backend. -/
def Checks (P : γ → Prop) : Except (ModelError α) γ → Prop
  | .ok a => P a
  | .error e => ¬ e.IsRefusal

variable {P : γ → Prop} {Q : δ → Prop} {x : Except (ModelError α) γ}

theorem Checks.bind {f : γ → Except (ModelError α) δ} (h : Checks P x)
    (hf : ∀ a, P a → Checks Q (f a)) : Checks Q (x >>= f) := by
  cases x with
  | ok a => exact hf a h
  | error e => exact h

theorem Checks.mono {P' : γ → Prop} (h : Checks P x) (hp : ∀ a, P a → P' a) : Checks P' x := by
  cases x with
  | ok a => exact hp a h
  | error e => exact h

theorem Checks.discard (h : Checks P x) : Checks (fun _ => True) (discard x) := by
  cases x with
  | ok a => trivial
  | error e => exact h

end Checks

theorem Domain.checks_check (d : Domain) :
    Checks (α := α) (fun _ => d.isSupported = true) (discard d.check) := by
  unfold check
  split
  · assumption
  · exact id

namespace Registry

variable {r : Registry α}

def Has (r : Registry α) (c : ColumnId) : Prop :=
  0 < c.number ∧ c.number ≤ r.entries.length

theorem checks_resolve (r : Registry α) (v : Variable) : Checks r.Has (r.resolve v) := by
  cases h : r.resolve v with
  | ok c =>
    obtain ⟨-, -, -, hn, hl⟩ := resolve_eq_ok_iff.1 h
    unfold ColumnId.offset at hl
    exact ⟨Nat.pos_of_ne_zero hn, by omega⟩
  | error e =>
    unfold resolve at h
    split at h
    · cases h
      exact id
    · split at h <;> cases h
      exact id

theorem checks_info (r : Registry α) (v : Variable) : Checks (fun _ => True) (r.info v) := by
  unfold info
  refine (r.checks_resolve v).bind fun c _ => ?_
  cases r.entries[c.offset]? with
  | some e => trivial
  | none => exact id

theorem checks_checkFree (r : Registry α) (name : String) :
    Checks (fun _ => True) (r.checkFree name) := by
  unfold checkFree
  split
  · exact id
  · trivial

end Registry

variable [Scalar α]

theorem checks_checkFinite (k : α) : Checks (fun _ => True) (checkFinite k) := by
  unfold checkFinite
  split
  · trivial
  · exact id

theorem checks_checkDivisor (k : α) : Checks (fun _ => True) (checkDivisor k) := by
  unfold checkDivisor
  split
  · exact id
  · trivial

theorem Domain.checks_checkConstant (d : Domain) (value : α) :
    Checks (fun _ => d.isSupported = true) (d.checkConstant value) := by
  refine d.checks_check.bind fun _ hd => ?_
  split
  · exact hd
  · exact id

/-- The domain is supported, and the row is over columns that are there and the one to come. -/
structure Draft.Sound (r : Registry α) (p : Draft α) : Prop where
  domain : p.info.domain.isSupported = true
  row : ∀ t ∈ p.row, t.1.Within (r.entries.length + 1)

def Plan.Sound (r : Registry α) : Plan α → Prop
  | column p => p.Sound r
  | relation a b _ => r.Has a ∧ r.Has b
  | objective row => row.Within r.entries.length

namespace Registry

variable {r : Registry α}

omit [Scalar α] in
theorem has_nextColumn (r : Registry α) :
    0 < r.nextColumn.number ∧ r.nextColumn.number ≤ r.entries.length + 1 :=
  ⟨Nat.succ_pos _, Nat.le_refl _⟩

theorem checks_draftDefined {d : Domain} {constant : Option α} {label : String}
    {operands : LinearRow α} (h : operands.Within r.entries.length) :
    Checks (Draft.Sound r) (r.draftDefined d constant label operands) := by
  refine d.checks_check.bind fun _ hd => ⟨hd, ?_⟩
  rintro t ⟨⟩
  exact (h.mono (Nat.le_succ _)).add r.has_nextColumn (-1)

theorem checks_draftScaled (d : Domain) (a : Variable) (k : α) :
    Checks (Draft.Sound r) (r.draftScaled d a k) := by
  refine (checks_checkFinite k).bind fun _ _ => ?_
  refine (r.checks_resolve a).bind fun c hc => ?_
  refine (r.checks_info a).bind fun x _ => ?_
  exact checks_draftDefined ((LinearRow.Within.empty _).add hc k)

theorem checks_draftDivided (d : Domain) (a : Variable) (k : α) :
    Checks (Draft.Sound r) (r.draftDivided d a k) := by
  refine (checks_checkFinite k).bind fun _ _ => ?_
  refine (checks_checkDivisor k).bind fun _ _ => ?_
  refine (r.checks_resolve a).bind fun c hc => ?_
  refine (r.checks_info a).bind fun x _ => ?_
  exact checks_draftDefined ((LinearRow.Within.empty _).add hc _)

theorem within_pinRow (r : Registry α) (value : α) :
    ∀ t ∈ some (r.pinRow value), t.1.Within (r.entries.length + 1) := by
  rintro t ⟨⟩
  exact (LinearRow.Within.empty _).add r.has_nextColumn 1

theorem checks_sumRow {row : LinearRow α} (h : row.Within r.entries.length) (vs : List Variable) :
    Checks (fun row => row.Within r.entries.length) (r.sumRow row vs) := by
  induction vs generalizing row with
  | nil => exact h
  | cons v vs ih => exact (r.checks_resolve v).bind fun c hc => ih (h.add hc 1)

end Registry

theorem Origin.checks_draft (r : Registry α) (d : Domain) (o : Origin α) :
    Checks (Draft.Sound r) (o.draft r d) := by
  cases o with
  | create name =>
    refine d.checks_check.bind fun _ hd => (r.checks_checkFree name).bind fun _ _ => ?_
    exact ⟨hd, fun _ => nofun⟩
  | createAnonymous => exact d.checks_check.bind fun _ hd => ⟨hd, fun _ => nofun⟩
  | fromConstant value =>
    exact (d.checks_checkConstant value).bind fun _ hd => ⟨hd, r.within_pinRow value⟩
  | namedConstant name value =>
    refine (d.checks_checkConstant value).bind fun _ hd => ?_
    refine (r.checks_checkFree name).bind fun _ _ => ?_
    exact ⟨hd, r.within_pinRow value⟩
  | sum a b =>
    refine (r.checks_resolve a).bind fun ca ha => (r.checks_resolve b).bind fun cb hb => ?_
    refine (r.checks_info a).bind fun x _ => (r.checks_info b).bind fun y _ => ?_
    exact Registry.checks_draftDefined (((LinearRow.Within.empty _).add ha 1).add hb 1)
  | negate a =>
    refine (r.checks_resolve a).bind fun c hc => (r.checks_info a).bind fun x _ => ?_
    exact Registry.checks_draftDefined ((LinearRow.Within.empty _).add hc _)
  | scale a k => exact Registry.checks_draftScaled d a k
  | divide a k => exact Registry.checks_draftDivided d a k
  | multiply a b =>
    refine (r.checks_info a).bind fun x _ => (r.checks_info b).bind fun y _ => ?_
    cases x.constant <;> cases y.constant
    · exact id
    all_goals exact Registry.checks_draftScaled d _ _
  | divideBy a b =>
    refine (r.checks_resolve a).discard.bind fun _ _ => (r.checks_info b).bind fun y _ => ?_
    cases y.constant with
    | some k => exact Registry.checks_draftDivided d a k
    | none => exact id

theorem Instruction.checks_plan (r : Registry α) (i : Instruction α) :
    Checks (Plan.Sound r) (i.plan r) := by
  cases i with
  | make o d => exact (o.checks_draft r d).bind fun p hp => hp
  | relate a b sense =>
    exact (r.checks_resolve a).bind fun ca ha => (r.checks_resolve b).bind fun cb hb => ⟨ha, hb⟩
  | maximize v => exact (Registry.checks_sumRow (.empty _) [v]).bind fun row h => h
  | maximizeSum vs => exact (Registry.checks_sumRow (.empty _) vs).bind fun row h => h

omit [Scalar α] in
theorem Model.checks_buildable (m : Model α β) : Checks (fun _ => m.Open) m.buildable := by
  unfold buildable
  split
  · exact not_false
  · split
    · exact ⟨by simp_all, by assumption⟩
    · exact not_false

theorem Model.checks_plan (m : Model α β) (i : Instruction α) :
    Checks (fun p => m.Open ∧ p.Sound m.registry) (m.plan i) :=
  m.checks_buildable.bind fun _ ho => (i.checks_plan m.registry).mono fun _ hp => ⟨ho, hp⟩

def VariableInfo.directives (info : VariableInfo α) (c : ColumnId) : List (Directive α) :=
  .addColumn :: .setColumnName c info.name :: info.domain.directives c

/-- What the backend is told where it accepts everything. -/
def Plan.directives (r : Registry α) : Plan α → List (LogEntry α)
  | column p => (p.info.directives r.nextColumn).map .sent ++
      (p.row.map fun t => .sent (.addRow t.1.terms .equal t.2)).toList
  | relation a b sense =>
    [.sent (.addRow ((LinearRow.empty.add a 1).add b (-1)).terms sense 0)]
  | objective row => [.setMaximize, .sent (.setObjective row.terms)]

def Plan.size : Plan α → Nat
  | column _ => 1
  | _ => 0

/-- The model is as open to calls as before, and has so many more variables. -/
structure Model.Grown (m : Model α β) (n : Nat) (m' : Model α β) : Prop where
  entries : m'.registry.entries.length = m.registry.entries.length + n
  state : m'.state = m.state
  poisoned : m'.poisoned = m.poisoned

namespace Model.Grown

variable {m m' m'' : Model α β} {n k : Nat}

omit [Scalar α] in
theorem refl (m : Model α β) : m.Grown 0 m := ⟨rfl, rfl, rfl⟩

omit [Scalar α] in
theorem trans (h : m.Grown n m') (h' : m'.Grown k m'') : m.Grown (n + k) m'' :=
  ⟨by rw [h'.entries, h.entries, Nat.add_assoc], h'.state.trans h.state,
    h'.poisoned.trans h.poisoned⟩

end Model.Grown

namespace Call

variable [Backend α β] {m : Model α (Logged α β)}

theorem tells_install {d : Domain} (hd : d.isSupported = true) (c : ColumnId)
    {Q : Unit → Model α (Logged α β) → Prop} (hq : ∀ b, Q () { m with backend := b }) :
    Tells (install d c) ((d.directives c).map .sent) Q m :=
  Tells.silent_bind (a := ()) (checkDomain_eq_ok_iff.2 ⟨hd, rfl⟩) rfl (tells_sendAll hq)

theorem tells_allocate {info : VariableInfo α} (hd : info.domain.isSupported = true) :
    Tells (allocate info) ((info.directives m.registry.nextColumn).map .sent)
      (fun _ m' => m.Grown 1 m') m := by
  refine Tells.silent_bind (a := m.registry.nextColumn) (n := m) rfl rfl ?_
  refine Tells.bind (l := [.sent .addColumn]) (Q := fun _ m' => m.Grown 0 m')
    (tells_send fun b => ⟨rfl, rfl, rfl⟩) ?_
  intro _ m₁ h₁
  refine Tells.silent_bind (a := ()) (n := { m₁ with columns := m₁.columns + 1 }) rfl rfl ?_
  refine Tells.bind (l := [.sent (.setColumnName m.registry.nextColumn info.name)])
    (Q := fun _ m' => m.Grown 0 m') (tells_send fun b => ⟨h₁.entries, h₁.state, h₁.poisoned⟩) ?_
  intro _ m₂ h₂
  refine Tells.bind_silent (Q := fun _ m' => m.Grown 0 m')
    (tells_install hd _ fun b => ⟨h₂.entries, h₂.state, h₂.poisoned⟩) ?_
  intro _ m₃ h₃
  exact tells_nothing rfl rfl ⟨by simp [Registry.insert, Model.report, h₃.entries], h₃.state,
    h₃.poisoned⟩

theorem tells_emitRow (row : LinearRow α) (sense : Sense) (bound : α) :
    Tells (emitRow row sense bound) [.sent (.addRow row.terms sense bound)]
      (fun _ m' => m.Grown 0 m') m := by
  refine Tells.bind_silent (Q := fun _ m' => m.Grown 0 m') (tells_send fun b => ⟨rfl, rfl, rfl⟩) ?_
  intro _ m₁ h₁
  exact tells_nothing rfl rfl ⟨h₁.entries, h₁.state, h₁.poisoned⟩

omit [Scalar α] in
theorem tells_setMaximize :
    Tells (modify fun m => { m with backend := Backend.setMaximize m.backend }) [.setMaximize]
      (fun _ m' => m.Grown 0 m') m :=
  ⟨rfl, rfl, rfl, rfl⟩

theorem tells_tie (row : Option (LinearRow α × α)) :
    Tells (tie row) (row.map fun t => .sent (.addRow t.1.terms .equal t.2)).toList
      (fun _ m' => m.Grown 0 m') m := by
  cases row with
  | none => exact tells_nothing rfl rfl (.refl m)
  | some t => exact tells_emitRow t.1 .equal t.2

theorem tells_draft {p : Draft α} (hp : p.info.domain.isSupported = true) :
    Tells p.execute ((Plan.column p).directives m.registry) (fun _ m' => m.Grown 1 m') m := by
  let m₀ := { m with registry := { m.registry with anonymous := p.anonymous } }
  refine Tells.silent_bind (a := ()) (n := m₀) rfl rfl ?_
  refine Tells.bind (tells_allocate hp) fun v m₁ h₁ => ?_
  refine Tells.bind_silent (tells_tie p.row) fun _ m₂ h₂ => ?_
  have h : m₀.Grown 1 m₂ := h₁.trans h₂
  exact tells_nothing rfl rfl ⟨h.entries, h.state, h.poisoned⟩

/-- A plan that checks have passed goes through unless the backend refuses one of its
directives. -/
theorem tells_plan {p : Plan α} (hp : p.Sound m.registry) :
    Tells p.execute (p.directives m.registry) (fun _ m' => m.Grown p.size m') m := by
  cases p with
  | column p =>
    exact Tells.bind_silent (tells_draft hp.domain) fun v m' h => tells_nothing rfl rfl h
  | relation a b sense =>
    refine Tells.bind_silent (tells_emitRow _ _ _) fun _ m' h => ?_
    exact tells_nothing rfl rfl ⟨h.entries, h.state, h.poisoned⟩
  | objective row =>
    refine Tells.bind tells_setMaximize fun _ m₁ h₁ => ?_
    refine Tells.bind_silent (Q := fun _ m' => m.Grown 0 m')
      (tells_send fun b => ⟨h₁.entries, h₁.state, h₁.poisoned⟩) fun _ m₂ h₂ => ?_
    exact tells_nothing rfl rfl ⟨h₂.entries, h₂.state, h₂.poisoned⟩

end Call

end LinearProgram
