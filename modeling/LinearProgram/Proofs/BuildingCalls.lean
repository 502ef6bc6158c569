import LinearProgram.Proofs.Growth

/-! When the calls that build succeed over the buffering backend, and in which model they end. -/

namespace LinearProgram

variable {α : Type}

namespace Registry

theorem info_eq_ok_iff {r : Registry α} {v : Variable} {i : VariableInfo α} :
    r.info v = .ok i ↔ r.resolve v = .ok v.column ∧ r.entries[v.column.offset]? = some i := by
  unfold info
  cases h : r.resolve v with
  | error e => simp [bind, Except.bind]
  | ok c =>
    obtain rfl := (resolve_eq_ok_iff.1 h).2.2.1
    simp only [bind, Except.bind, true_and]
    split <;> simp_all

theorem resolve_column {r : Registry α} {v : Variable} {c : ColumnId} (h : r.resolve v = .ok c) :
    v.column = c :=
  (resolve_eq_ok_iff.1 h).2.2.1

end Registry

theorem mem_entries_add [Scalar α] {r : LinearRow α} {c : ColumnId} {a : α} {t : Term α}
    (h : t ∈ (r.add c a).entries) : t.1 = c ∨ ∃ s ∈ r.entries, s.1 = t.1 :=
  mem_addTerm h

/-- The terms of variables, each with the coefficient one. -/
def LinearRow.ofVariables [Scalar α] (row : LinearRow α) (vs : List Variable) : LinearRow α :=
  vs.foldl (fun r v => r.add v.column 1) row

namespace Model

/-- The model can still be built on. -/
def Open {β : Type} (m : Model α β) : Prop :=
  m.poisoned = false ∧ m.state = .unsolved

def newHandle {β : Type} (m : Model α β) : Variable :=
  m.registry.handle m.registry.nextColumn

/-- The columns of a row are columns of the backend. -/
def Covers (m : Model α (ServiceBackend α)) (r : LinearRow α) : Prop :=
  ∀ t ∈ r.entries, m.backend.hasColumn t.1 = true

theorem covers_empty (m : Model α (ServiceBackend α)) : m.Covers .empty := by
  intro t ht
  simp at ht

/-- The model after its next name has been taken from the generated ones. -/
def countName {β : Type} (m : Model α β) : Model α β :=
  { m with registry := { m.registry with anonymous := m.registry.nextAnonymous } }

theorem InStep.countName {m : Model α (ServiceBackend α)} (h : m.InStep) : m.countName.InStep :=
  ⟨h.entries, h.columns, h.rows⟩

theorem InStep.hasColumn_of_info {m : Model α (ServiceBackend α)} (h : m.InStep) {v : Variable}
    {i : VariableInfo α} (hi : m.registry.info v = .ok i) :
    m.backend.hasColumn v.column = true :=
  h.hasColumn (Registry.info_eq_ok_iff.1 hi).1

variable [Scalar α]

theorem Covers.add {m : Model α (ServiceBackend α)} {r : LinearRow α} (h : m.Covers r)
    {c : ColumnId} (hc : m.backend.hasColumn c = true) (a : α) : m.Covers (r.add c a) := by
  intro t ht
  rcases mem_entries_add ht with he | ⟨s, hs, he⟩
  · exact he ▸ hc
  · exact he ▸ h s hs

theorem Covers.ofVariables {m : Model α (ServiceBackend α)} {r : LinearRow α} (h : m.Covers r)
    {vs : List Variable} (hv : ∀ v ∈ vs, m.backend.hasColumn v.column = true) :
    m.Covers (r.ofVariables vs) := by
  induction vs generalizing r with
  | nil => exact h
  | cons v vs ih =>
    exact ih (h.add (hv v List.mem_cons_self) 1) fun w hw => hv w (List.mem_cons_of_mem _ hw)

theorem Covers.terms {m : Model α (ServiceBackend α)} {r : LinearRow α} (h : m.Covers r) :
    ∀ t ∈ r.terms, m.backend.hasColumn t.1 = true :=
  fun t ht => h t (LinearRow.mem_terms.1 ht).1

theorem Covers.grow {m : Model α (ServiceBackend α)} {r : LinearRow α} (h : m.Covers r)
    (info : VariableInfo α) : (m.grow info).Covers r := by
  intro t ht
  obtain ⟨hn, hl⟩ := ServiceBackend.hasColumn_iff.1 (h t ht)
  refine ServiceBackend.hasColumn_iff.2 ⟨hn, ?_⟩
  simp only [Model.grow, ServiceBackend.pushColumn, List.length_append]
  exact Nat.lt_add_right _ hl

theorem hasColumn_grow {m : Model α (ServiceBackend α)} (h : m.InStep) (info : VariableInfo α) :
    (m.grow info).backend.hasColumn m.registry.nextColumn = true := by
  rw [h.nextColumn]
  exact ServiceBackend.hasColumn_pushColumn_new _ _

/-- The model with one more variable, which goes by a generated name. -/
def growAnonymous (m : Model α (ServiceBackend α)) (domain : Domain) (constant : Option α)
    (expression : Option String) : Model α (ServiceBackend α) :=
  m.countName.grow
    { name := Registry.generatedName m.registry.nextAnonymous, domain, constant, expression }

/-- The model in which the last variable is held to a value. -/
def pinned (m : Model α (ServiceBackend α)) (c : ColumnId) (value : α) :
    Model α (ServiceBackend α) :=
  m.pushRow (LinearRow.empty.add c 1) .equal value

/-- The model with one more variable, which is what the operands add up to. -/
def defined (m : Model α (ServiceBackend α)) (domain : Domain) (constant : Option α)
    (label : String) (operands : LinearRow α) : Model α (ServiceBackend α) :=
  (m.growAnonymous domain constant (some label)).pushRow
    (operands.add m.registry.nextColumn (-1)) .equal 0

/-- The model in which the row is to be maximized. -/
def maximized (m : Model α (ServiceBackend α)) (row : LinearRow α) :
    Model α (ServiceBackend α) :=
  { m with
    backend := m.backend.setMaximize.setObjectiveTerms row.offsetTerms
    objective := some row
    events := m.events ++ [.setObjective row.terms.length] }

theorem resolve_newHandle (m : Model α (ServiceBackend α)) (info : VariableInfo α) :
    (m.grow info).registry.resolve m.newHandle = .ok m.registry.nextColumn :=
  Registry.resolve_eq_ok_iff.2 ⟨rfl, rfl, rfl, by simp [Registry.nextColumn, ColumnId.ofOffset],
    by simp [Registry.nextColumn, Model.grow, Registry.insert]⟩

end Model

theorem Registry.generatedName_ne_empty (n : Nat) : generatedName n ≠ "" := by
  intro h
  have := congrArg String.length h
  simp [generatedName] at this

namespace Call

variable [Scalar α] [Codec α] [ZeroIsNumber α] {m m' : Model α (ServiceBackend α)} {v : Variable}

theorem create_eq_ok_iff (h : m.InStep) {name : String} {d : Domain} :
    create name d m = .ok v m' ↔
      m.Open ∧ d.isSupported = true ∧ m.registry.isTaken name = false ∧ name ≠ "" ∧
        m.newHandle = v ∧ m.grow { name, domain := d } = m' := by
  simp only [create, bind_eq_ok_iff, buildable_eq_ok_iff, checkDomain_eq_ok_iff,
    checkName_eq_ok_iff]
  constructor
  · rintro ⟨_, _, ⟨ho, rfl⟩, _, _, ⟨hd, rfl⟩, _, _, ⟨ht, rfl⟩, ha⟩
    exact ⟨ho, hd, ht, (allocate_eq_ok_iff h hd).1 ha⟩
  · rintro ⟨ho, hd, ht, ha⟩
    exact ⟨(), m, ⟨ho, rfl⟩, (), m, ⟨hd, rfl⟩, (), m, ⟨ht, rfl⟩, (allocate_eq_ok_iff h hd).2 ha⟩

theorem allocateAnonymous_of_supported (h : m.InStep) {d : Domain} (hd : d.isSupported = true)
    (constant : Option α) (expression : Option String) :
    allocateAnonymous d constant expression m =
      .ok m.newHandle (m.growAnonymous d constant expression) := by
  have hf : freshName m =
      .ok (Registry.generatedName m.registry.nextAnonymous) m.countName := rfl
  exact (bind_of_ok hf).trans
    (allocate_of_name_ne h.countName hd (Registry.generatedName_ne_empty _))

theorem createAnonymous_eq_ok_iff (h : m.InStep) {d : Domain} :
    createAnonymous d m = .ok v m' ↔
      m.Open ∧ d.isSupported = true ∧ m.newHandle = v ∧ m.growAnonymous d none none = m' := by
  simp only [createAnonymous, bind_eq_ok_iff, buildable_eq_ok_iff, checkDomain_eq_ok_iff]
  constructor
  · rintro ⟨_, _, ⟨ho, rfl⟩, _, _, ⟨hd, rfl⟩, ha⟩
    rw [allocateAnonymous_of_supported h hd] at ha
    exact ⟨ho, hd, EStateM.Result.ok.inj ha⟩
  · rintro ⟨ho, hd, rfl, rfl⟩
    exact ⟨(), m, ⟨ho, rfl⟩, (), m, ⟨hd, rfl⟩, allocateAnonymous_of_supported h hd _ _⟩

omit [ZeroIsNumber α] in
theorem pin_newHandle {n : Model α (ServiceBackend α)} (h : n.InStep) (info : VariableInfo α)
    (value : α) :
    pin n.newHandle value (n.grow info) =
      .ok () ((n.grow info).pinned n.registry.nextColumn value) := by
  have hr : resolve n.newHandle (n.grow info) = .ok n.registry.nextColumn (n.grow info) :=
    resolve_eq_ok_iff.2 ⟨Model.resolve_newHandle n info, rfl⟩
  exact (bind_of_ok hr).trans (emitRow_of_hasColumn
    ((Model.covers_empty _).add (Model.hasColumn_grow h info) 1).terms _ _)

theorem fromConstant_eq_ok_iff (h : m.InStep) {value : α} {d : Domain} :
    fromConstant value d m = .ok v m' ↔
      m.Open ∧ d.isSupported = true ∧ d.admits value = true ∧ m.newHandle = v ∧
        (m.growAnonymous d (some value) (some (Scalar.text value))).pinned
          m.registry.nextColumn value = m' := by
  simp only [fromConstant, bind_eq_ok_iff, buildable_eq_ok_iff, checkConstant_eq_ok_iff,
    pure_eq_ok_iff]
  constructor
  · rintro ⟨_, _, ⟨ho, rfl⟩, _, _, ⟨⟨hd, hv⟩, rfl⟩, w, m₁, ha, _, m₂, hp, rfl, rfl⟩
    rw [allocateAnonymous_of_supported h hd] at ha
    obtain ⟨rfl, rfl⟩ := EStateM.Result.ok.inj ha
    have hp' := (pin_newHandle h.countName _ _).symm.trans hp
    exact ⟨ho, hd, hv, rfl, (EStateM.Result.ok.inj hp').2⟩
  · rintro ⟨ho, hd, hv, rfl, rfl⟩
    exact ⟨(), m, ⟨ho, rfl⟩, (), m, ⟨⟨hd, hv⟩, rfl⟩, _, _,
      allocateAnonymous_of_supported h hd _ _, (), _, pin_newHandle h.countName _ _, rfl, rfl⟩

theorem namedConstant_eq_ok_iff (h : m.InStep) {name : String} {value : α} {d : Domain} :
    namedConstant name value d m = .ok v m' ↔
      m.Open ∧ d.isSupported = true ∧ d.admits value = true ∧
        m.registry.isTaken name = false ∧ name ≠ "" ∧ m.newHandle = v ∧
        (m.grow { name, domain := d, constant := some value,
                  expression := some (Scalar.text value) }).pinned
          m.registry.nextColumn value = m' := by
  simp only [namedConstant, bind_eq_ok_iff, buildable_eq_ok_iff, checkConstant_eq_ok_iff,
    checkName_eq_ok_iff, pure_eq_ok_iff]
  constructor
  · rintro ⟨_, _, ⟨ho, rfl⟩, _, _, ⟨⟨hd, hv⟩, rfl⟩, _, _, ⟨ht, rfl⟩, w, m₁, ha, _, m₂, hp, rfl, rfl⟩
    obtain ⟨hn, rfl, rfl⟩ := (allocate_eq_ok_iff h hd).1 ha
    have hp' := (pin_newHandle h _ _).symm.trans hp
    exact ⟨ho, hd, hv, ht, hn, rfl, (EStateM.Result.ok.inj hp').2⟩
  · rintro ⟨ho, hd, hv, ht, hn, rfl, rfl⟩
    exact ⟨(), m, ⟨ho, rfl⟩, (), m, ⟨⟨hd, hv⟩, rfl⟩, (), m, ⟨ht, rfl⟩, _, _,
      (allocate_eq_ok_iff h hd).2 ⟨hn, rfl, rfl⟩, (), _, pin_newHandle h _ _, rfl, rfl⟩

theorem define_eq_ok_iff (h : m.InStep) {d : Domain} {constant : Option α} {label : String}
    {operands : LinearRow α} (ho : m.Covers operands) :
    define d constant label operands m = .ok v m' ↔
      d.isSupported = true ∧ m.newHandle = v ∧ m.defined d constant label operands = m' := by
  have hrun (hd : d.isSupported = true) :
      define d constant label operands m = .ok m.newHandle (m.defined d constant label operands) := by
    have hc : checkDomain d m = .ok () m := checkDomain_eq_ok_iff.2 ⟨hd, rfl⟩
    have hr : resolve m.newHandle (m.growAnonymous d constant (some label)) =
        .ok m.registry.nextColumn (m.growAnonymous d constant (some label)) :=
      resolve_eq_ok_iff.2 ⟨Model.resolve_newHandle m.countName _, rfl⟩
    have hrow : (m.growAnonymous d constant (some label)).Covers
        (operands.add m.registry.nextColumn (-1)) :=
      Model.Covers.add (Model.Covers.grow (m := m.countName) ho _)
        (Model.hasColumn_grow h.countName _) (-1)
    have hemit := emitRow_of_hasColumn hrow.terms .equal 0
    rw [define, bind_of_ok hc, bind_of_ok (allocateAnonymous_of_supported h hd _ _),
      bind_of_ok hr, bind_of_ok hemit]
    rfl
  constructor
  · intro hdef
    obtain ⟨_, _, hc, -⟩ := bind_eq_ok_iff.1 hdef
    have hd := (checkDomain_eq_ok_iff.1 hc).1
    exact ⟨hd, EStateM.Result.ok.inj ((hrun hd).symm.trans hdef)⟩
  · rintro ⟨hd, rfl, rfl⟩
    exact hrun hd

theorem sum_eq_ok_iff (h : m.InStep) {a b : Variable} {d : Domain} :
    sum a b d m = .ok v m' ↔
      m.Open ∧ d.isSupported = true ∧ m.newHandle = v ∧
        ∃ x y, m.registry.info a = .ok x ∧ m.registry.info b = .ok y ∧
          m.defined d (do return (← x.constant) + (← y.constant)) (x.name ++ " + " ++ y.name)
            ((LinearRow.empty.add a.column 1).add b.column 1) = m' := by
  simp only [sum, bind_eq_ok_iff, buildable_eq_ok_iff, resolve_eq_ok_iff, info_eq_ok_iff]
  have hc {x y : VariableInfo α} (hx : m.registry.info a = .ok x) (hy : m.registry.info b = .ok y) :
      m.Covers ((LinearRow.empty.add a.column 1).add b.column 1) :=
    ((m.covers_empty.add (h.hasColumn_of_info hx) 1).add (h.hasColumn_of_info hy) 1)
  constructor
  · rintro ⟨_, _, ⟨ho, rfl⟩, ca, _, ⟨hca, rfl⟩, cb, _, ⟨hcb, rfl⟩, x, _, ⟨hx, rfl⟩, y, _,
      ⟨hy, rfl⟩, hd⟩
    obtain rfl := Registry.resolve_column hca
    obtain rfl := Registry.resolve_column hcb
    obtain ⟨hd, hv, hm⟩ := (define_eq_ok_iff h (hc hx hy)).1 hd
    exact ⟨ho, hd, hv, x, y, hx, hy, hm⟩
  · rintro ⟨ho, hd, hv, x, y, hx, hy, hm⟩
    exact ⟨(), m, ⟨ho, rfl⟩, _, m, ⟨(Registry.info_eq_ok_iff.1 hx).1, rfl⟩, _, m,
      ⟨(Registry.info_eq_ok_iff.1 hy).1, rfl⟩, x, m, ⟨hx, rfl⟩, y, m, ⟨hy, rfl⟩,
      (define_eq_ok_iff h (hc hx hy)).2 ⟨hd, hv, hm⟩⟩

/-- The operations on one variable end alike: they look it up and define their result. -/
theorem unary_eq_ok_iff (h : m.InStep) {a : Variable} {d : Domain} {k : α}
    {constant : VariableInfo α → Option α} {label : VariableInfo α → String} :
    (do let c ← resolve a
        let x ← info a
        define d (constant x) (label x) (LinearRow.empty.add c k) : Call α _ Variable) m = .ok v m' ↔
      d.isSupported = true ∧ m.newHandle = v ∧ ∃ x, m.registry.info a = .ok x ∧
        m.defined d (constant x) (label x) (LinearRow.empty.add a.column k) = m' := by
  simp only [bind_eq_ok_iff, resolve_eq_ok_iff, info_eq_ok_iff]
  have hc {x : VariableInfo α} (hx : m.registry.info a = .ok x) :
      m.Covers (LinearRow.empty.add a.column k) :=
    m.covers_empty.add (h.hasColumn_of_info hx) k
  constructor
  · rintro ⟨c, _, ⟨hr, rfl⟩, x, _, ⟨hx, rfl⟩, hd⟩
    obtain rfl := Registry.resolve_column hr
    obtain ⟨hd, hv, hm⟩ := (define_eq_ok_iff h (hc hx)).1 hd
    exact ⟨hd, hv, x, hx, hm⟩
  · rintro ⟨hd, hv, x, hx, hm⟩
    exact ⟨_, m, ⟨(Registry.info_eq_ok_iff.1 hx).1, rfl⟩, x, m, ⟨hx, rfl⟩,
      (define_eq_ok_iff h (hc hx)).2 ⟨hd, hv, hm⟩⟩

theorem negate_eq_ok_iff (h : m.InStep) {a : Variable} {d : Domain} :
    negate a d m = .ok v m' ↔
      m.Open ∧ d.isSupported = true ∧ m.newHandle = v ∧ ∃ x, m.registry.info a = .ok x ∧
        m.defined d (x.constant.map (-·)) ("-" ++ x.name)
          (LinearRow.empty.add a.column (-1)) = m' := by
  rw [negate, bind_eq_ok_iff]
  simp only [buildable_eq_ok_iff]
  constructor
  · rintro ⟨_, _, ⟨ho, rfl⟩, hr⟩
    exact ⟨ho, (unary_eq_ok_iff h).1 hr⟩
  · rintro ⟨ho, hr⟩
    exact ⟨(), m, ⟨ho, rfl⟩, (unary_eq_ok_iff h).2 hr⟩

theorem scale_eq_ok_iff (h : m.InStep) {a : Variable} {k : α} {d : Domain} :
    scale a k d m = .ok v m' ↔
      m.Open ∧ Scalar.isFinite k = true ∧ d.isSupported = true ∧ m.newHandle = v ∧
        ∃ x, m.registry.info a = .ok x ∧
          m.defined d (x.constant.map (k * ·)) (Scalar.text k ++ " * " ++ x.name)
            (LinearRow.empty.add a.column k) = m' := by
  rw [scale, bind_eq_ok_iff]
  simp only [bind_eq_ok_iff (x := checkFinite k), buildable_eq_ok_iff, checkFinite_eq_ok_iff]
  constructor
  · rintro ⟨_, _, ⟨ho, rfl⟩, _, _, ⟨hk, rfl⟩, hr⟩
    exact ⟨ho, hk, (unary_eq_ok_iff h).1 hr⟩
  · rintro ⟨ho, hk, hr⟩
    exact ⟨(), m, ⟨ho, rfl⟩, (), m, ⟨hk, rfl⟩, (unary_eq_ok_iff h).2 hr⟩

theorem divide_eq_ok_iff (h : m.InStep) {a : Variable} {k : α} {d : Domain} :
    divide a k d m = .ok v m' ↔
      m.Open ∧ Scalar.isFinite k = true ∧ (k == 0) = false ∧ d.isSupported = true ∧
        m.newHandle = v ∧ ∃ x, m.registry.info a = .ok x ∧
          m.defined d (x.constant.map (· / k)) (x.name ++ " / " ++ Scalar.text k)
            (LinearRow.empty.add a.column (1 / k)) = m' := by
  rw [divide, bind_eq_ok_iff]
  simp only [bind_eq_ok_iff (x := checkFinite k), buildable_eq_ok_iff, checkFinite_eq_ok_iff]
  cases hz : k == 0 with
  | true =>
    refine iff_of_false ?_ (by simp)
    rintro ⟨_, _, -, _, _, -, hr⟩
    obtain ⟨_, _, ht, -⟩ := bind_eq_ok_iff.1 hr
    exact throw_ne_ok ht
  | false =>
    constructor
    · rintro ⟨_, _, ⟨ho, rfl⟩, _, _, ⟨hk, rfl⟩, hr⟩
      exact ⟨ho, hk, rfl, (unary_eq_ok_iff h).1 hr⟩
    · rintro ⟨ho, hk, -, hr⟩
      exact ⟨(), m, ⟨ho, rfl⟩, (), m, ⟨hk, rfl⟩, (unary_eq_ok_iff h).2 hr⟩

omit [ZeroIsNumber α] in
theorem multiply_eq_ok_iff {a b : Variable} {d : Domain} :
    multiply a b d m = .ok v m' ↔
      ∃ x y, m.registry.info a = .ok x ∧ m.registry.info b = .ok y ∧ m.Open ∧
        ((∃ k, y.constant = some k ∧ scale a k d m = .ok v m') ∨
          (∃ k, x.constant = some k ∧ y.constant = none ∧ scale b k d m = .ok v m')) := by
  simp only [multiply, bind_eq_ok_iff, buildable_eq_ok_iff, info_eq_ok_iff]
  constructor
  · rintro ⟨_, _, ⟨ho, rfl⟩, x, _, ⟨hx, rfl⟩, y, _, ⟨hy, rfl⟩, hr⟩
    refine ⟨x, y, hx, hy, ho, ?_⟩
    cases hyk : y.constant with
    | some k => exact .inl ⟨k, rfl, by simpa only [hyk] using hr⟩
    | none =>
      cases hxk : x.constant with
      | some k => exact .inr ⟨k, rfl, rfl, by simpa only [hyk, hxk] using hr⟩
      | none =>
        simp only [hyk, hxk] at hr
        exact (throw_ne_ok hr).elim
  · rintro ⟨x, y, hx, hy, ho, ⟨k, hk, hr⟩ | ⟨k, hk, hn, hr⟩⟩
    · exact ⟨(), m, ⟨ho, rfl⟩, x, m, ⟨hx, rfl⟩, y, m, ⟨hy, rfl⟩, by simpa [hk] using hr⟩
    · exact ⟨(), m, ⟨ho, rfl⟩, x, m, ⟨hx, rfl⟩, y, m, ⟨hy, rfl⟩, by simpa [hk, hn] using hr⟩

omit [Scalar α] [Codec α] [ZeroIsNumber α] in
theorem discard_resolve_eq_ok_iff {a : Variable} {u : Unit} :
    (discard (resolve a) : Call α (ServiceBackend α) Unit) m = .ok u m' ↔
      m.registry.resolve a = .ok a.column ∧ m = m' := by
  show (resolve a >>= fun _ => pure ()) m = _ ↔ _
  simp only [bind_eq_ok_iff, resolve_eq_ok_iff, pure_eq_ok_iff]
  constructor
  · rintro ⟨c, _, ⟨hc, rfl⟩, -, rfl⟩
    exact ⟨Registry.resolve_column hc ▸ hc, rfl⟩
  · rintro ⟨hc, rfl⟩
    exact ⟨_, _, ⟨hc, rfl⟩, trivial, rfl⟩

omit [ZeroIsNumber α] in
theorem divideBy_eq_ok_iff {a b : Variable} {d : Domain} :
    divideBy a b d m = .ok v m' ↔
      m.registry.resolve a = .ok a.column ∧ ∃ y k, m.registry.info b = .ok y ∧ m.Open ∧
        y.constant = some k ∧ divide a k d m = .ok v m' := by
  simp only [divideBy, bind_eq_ok_iff, buildable_eq_ok_iff, info_eq_ok_iff,
    discard_resolve_eq_ok_iff]
  constructor
  · rintro ⟨_, _, ⟨ho, rfl⟩, _, _, ⟨ha, rfl⟩, y, _, ⟨hy, rfl⟩, hr⟩
    cases hk : y.constant with
    | some k => exact ⟨ha, y, k, hy, ho, hk, by simpa only [hk] using hr⟩
    | none =>
      simp only [hk] at hr
      exact (throw_ne_ok hr).elim
  · rintro ⟨ha, y, k, hy, ho, hk, hr⟩
    exact ⟨(), m, ⟨ho, rfl⟩, (), m, ⟨ha, rfl⟩, y, m, ⟨hy, rfl⟩, by simpa [hk] using hr⟩

omit [ZeroIsNumber α] in
theorem relate_eq_ok_iff (h : m.InStep) {a b : Variable} {sense : Sense} {u : Unit} :
    relate a b sense m = .ok u m' ↔
      m.Open ∧ m.registry.resolve a = .ok a.column ∧ m.registry.resolve b = .ok b.column ∧
        (m.pushRow ((LinearRow.empty.add a.column 1).add b.column (-1)) sense 0).report
          (.addedConstraint a.column b.column sense) = m' := by
  simp only [relate, bind_eq_ok_iff, buildable_eq_ok_iff, resolve_eq_ok_iff, report_eq_ok_iff]
  have hc (ha : m.registry.resolve a = .ok a.column) (hb : m.registry.resolve b = .ok b.column) :=
    emitRow_of_hasColumn
      ((m.covers_empty.add (h.hasColumn ha) 1).add (h.hasColumn hb) (-1)).terms sense 0
  constructor
  · rintro ⟨_, _, ⟨ho, rfl⟩, ca, _, ⟨ha, rfl⟩, cb, _, ⟨hb, rfl⟩, _, m₁, he, rfl⟩
    obtain rfl := Registry.resolve_column ha
    obtain rfl := Registry.resolve_column hb
    obtain ⟨-, rfl⟩ := EStateM.Result.ok.inj ((hc ha hb).symm.trans he)
    exact ⟨ho, ha, hb, rfl⟩
  · rintro ⟨ho, ha, hb, rfl⟩
    exact ⟨(), m, ⟨ho, rfl⟩, _, m, ⟨ha, rfl⟩, _, m, ⟨hb, rfl⟩, (), _, hc ha hb, rfl⟩

omit [Codec α] [ZeroIsNumber α] in
theorem sumRow_eq_ok_iff {row row' : LinearRow α} {vs : List Variable} :
    sumRow row vs m = .ok row' m' ↔
      (∀ v ∈ vs, m.registry.resolve v = .ok v.column) ∧ row.ofVariables vs = row' ∧ m = m' := by
  induction vs generalizing row m with
  | nil => simp [sumRow, pure_eq_ok_iff, LinearRow.ofVariables]
  | cons v vs ih =>
    simp only [sumRow, bind_eq_ok_iff, resolve_eq_ok_iff, ih, List.forall_mem_cons]
    constructor
    · rintro ⟨c, _, ⟨hc, rfl⟩, hvs, rfl, rfl⟩
      obtain rfl := Registry.resolve_column hc
      exact ⟨⟨hc, hvs⟩, rfl, rfl⟩
    · rintro ⟨⟨hc, hvs⟩, rfl, rfl⟩
      exact ⟨_, m, ⟨hc, rfl⟩, hvs, rfl, rfl⟩

omit [ZeroIsNumber α] in
theorem maximizeSum_eq_ok_iff (h : m.InStep) {vs : List Variable} {u : Unit} :
    maximizeSum vs m = .ok u m' ↔
      m.Open ∧ (∀ v ∈ vs, m.registry.resolve v = .ok v.column) ∧
        m.maximized (LinearRow.empty.ofVariables vs) = m' := by
  simp only [maximizeSum, bind_eq_ok_iff, buildable_eq_ok_iff, sumRow_eq_ok_iff]
  have hs (hv : ∀ v ∈ vs, m.registry.resolve v = .ok v.column) :
      send (.setObjective (LinearRow.empty.ofVariables vs).terms)
        { m with backend := m.backend.setMaximize } =
      .ok () { m with backend := m.backend.setMaximize.setObjectiveTerms
                        (LinearRow.empty.ofVariables vs : LinearRow α).offsetTerms } := by
    refine send_of_ok ?_
    have hcov := m.covers_empty.ofVariables fun v hm => h.hasColumn (hv v hm)
    rw [ServiceBackend.apply, ServiceBackend.offsets_eq (b := m.backend.setMaximize) hcov.terms]
    rfl
  constructor
  · rintro ⟨_, _, ⟨ho, rfl⟩, row, _, ⟨hv, rfl, rfl⟩, _, _, hmod, _, m₁, hsend, hrest⟩
    obtain rfl := modify_eq_ok_iff.1 hmod
    obtain ⟨-, rfl⟩ := EStateM.Result.ok.inj ((hs hv).symm.trans hsend)
    obtain ⟨_, _, hrep, hset⟩ := hrest
    obtain rfl := report_eq_ok_iff.1 hrep
    exact ⟨ho, hv, modify_eq_ok_iff.1 hset⟩
  · rintro ⟨ho, hv, rfl⟩
    exact ⟨(), m, ⟨ho, rfl⟩, _, m, ⟨hv, rfl, rfl⟩, (), _, rfl, (), _, hs hv, (), _, rfl, rfl⟩

end Call

end LinearProgram
