import LinearProgram.Proofs.DefiningRows

/-! The feasible points of a program are the assignments under which every call that built it
means what it says. -/

namespace LinearProgram

open Model Call

/-- What a call says about the values. -/
def Entry.Holds (v : Assignment) : Entry Rat → Prop
  | made o d x => d.Contains (x.value v) ∧ o.Defines v (x.value v)
  | related a b sense => sense.Holds (a.value v) (b.value v)
  | maximized _ => True

theorem Entry.Holds.defined {e : Entry Rat} {v : Assignment} (h : e.Holds v) : e.Defined v := by
  cases e with
  | made o d x => exact h.2
  | related a b sense => trivial
  | maximized vs => trivial

namespace Problem

theorem feasible_of_eq {p q : Problem Rat} {v : Assignment} (hc : q.columns = p.columns)
    (hr : q.constraints = p.constraints) : q.Feasible v ↔ p.Feasible v :=
  ⟨fun h => ⟨hc ▸ h.columns, hr ▸ h.rows⟩, fun h => ⟨hc ▸ h.columns, hr ▸ h.rows⟩⟩

theorem feasible_append {p q : Problem Rat} {v : Assignment} {cs : List (Column Rat)}
    {rows : List (Constraint Rat)} (hc : q.columns = p.columns ++ cs)
    (hr : q.constraints = p.constraints ++ rows) :
    q.Feasible v ↔ p.Feasible v ∧
      (∀ (i : Nat) (c : Column Rat), cs[i]? = some c → c.Allows (v (p.columns.length + i))) ∧
      ∀ c ∈ rows, c.Satisfied v := by
  constructor
  · intro h
    refine ⟨⟨fun i c hi => h.columns i c ?_, fun c hm => h.rows c ?_⟩,
      fun i c hi => h.columns _ c ?_, fun c hm => h.rows c ?_⟩
    · obtain ⟨hl, -⟩ := List.getElem?_eq_some_iff.1 hi
      rw [hc, List.getElem?_append_left hl, hi]
    · rw [hr]
      exact List.mem_append_left _ hm
    · rw [hc, List.getElem?_append_right (Nat.le_add_right _ _), Nat.add_sub_cancel_left, hi]
    · rw [hr]
      exact List.mem_append_right _ hm
  · rintro ⟨hp, hcs, hrows⟩
    constructor
    · intro i c hi
      rw [hc] at hi
      rcases Nat.lt_or_ge i p.columns.length with hl | hl
      · rw [List.getElem?_append_left hl] at hi
        exact hp.columns i c hi
      · rw [List.getElem?_append_right hl] at hi
        have := hcs _ c hi
        rwa [Nat.add_sub_cancel' hl] at this
    · rw [hr]
      exact List.forall_mem_append.2 ⟨hp.rows, hrows⟩

end Problem

variable [Codec Rat] {m m' : RationalModel}

/-- A call narrows the feasible points to those where it holds. -/
theorem Entry.feasible_iff {e : Entry Rat} (h : m.InStep) (hr : e.Runs m m') {v : Assignment}
    (hk : m.Known v) :
    m'.backend.problem.Feasible v ↔ m.backend.problem.Feasible v ∧ e.Holds v := by
  cases e with
  | made o d x =>
    have hm := Origin.made h hr
    obtain ⟨info, rows, rfl, ha, hv⟩ := hm.added
    have hx : v m.backend.problem.columns.length = x.value v := by
      rw [← hm.handle, ← h.entries]
      rfl
    rw [Problem.feasible_append ha.columns ha.constraints, (hv v hk).1, Holds,
      ← Domain.column_allows hm.supported info.name, ← hx]
    refine and_congr_right fun _ => and_congr_left fun _ => ?_
    constructor
    · exact fun hc => hc 0 _ rfl
    · rintro hc (_ | i) c hi
      · obtain rfl := Option.some.inj hi
        exact hc
      · cases hi
  | related a b sense =>
    obtain ⟨-, -, hc, c, hrows, hs⟩ := relate_spec h hr
    rw [Problem.feasible_append (hc.trans (List.append_nil _).symm) hrows]
    simp [hs, Holds]
  | maximized vs =>
    obtain ⟨-, -, hc, hrows⟩ := maximizeSum_spec h hr
    rw [Problem.feasible_of_eq hc hrows]
    exact (and_iff_left trivial).symm

theorem Entry.feasible_of_runs {e : Entry Rat} (h : m.InStep) (hr : e.Runs m m') {v : Assignment}
    (hf : m'.backend.problem.Feasible v) : m.backend.problem.Feasible v := by
  cases e with
  | made o d x =>
    obtain ⟨info, rows, -, ha, -⟩ := (Origin.made h hr).added
    exact ((Problem.feasible_append ha.columns ha.constraints).1 hf).1
  | related a b sense =>
    obtain ⟨-, -, hc, c, hrows, -⟩ := relate_spec h hr
    exact ((Problem.feasible_append (hc.trans (List.append_nil _).symm) hrows).1 hf).1
  | maximized vs =>
    obtain ⟨-, -, hc, hrows⟩ := maximizeSum_spec h hr
    exact (Problem.feasible_of_eq hc hrows).1 hf

/-- An assignment is feasible exactly when every call that was made holds under it. -/
theorem Build.feasible_iff_calls_hold {id : ModelId} {service : SolverService Rat} {config : Config Rat}
    {events : List Event} {ss : List (Step Rat)}
    (hb : Build (Model.fresh id service config events) ss m) (v : Assignment) :
    m.backend.problem.Feasible v ↔ ∀ s ∈ ss, s.entry.Holds v := by
  induction hb with
  | new =>
    refine iff_of_true ⟨?_, ?_⟩ (by simp)
    · intro i c hi
      simp [fresh, Model.new] at hi
    · intro c hc
      simp [fresh, Model.new] at hc
  | @call ss m m' e hb hr ih =>
    rw [List.forall_mem_append, List.forall_mem_singleton, ← ih]
    have hk (hf : m.backend.problem.Feasible v) : m.Known v :=
      hb.known fun s hs => (ih.1 hf s hs).defined
    constructor
    · intro hf
      have hf' := Entry.feasible_of_runs hb.inStep hr hf
      exact (Entry.feasible_iff hb.inStep hr (hk hf')).1 hf
    · intro hf
      exact (Entry.feasible_iff hb.inStep hr (hk hf.1)).2 hf

/-- A codec for models that are never saved. -/
@[reducible]
def Codec.refusing : Codec Rat where
  encode _ _ := .error .io
  decode _ _ := .error .io

/-- The triple of a doubled variable, which is to stay below the variable itself. -/
def tripledDouble : List (Entry Rat) :=
  let handle n : Variable := ⟨⟨0⟩, 0, ⟨n⟩⟩
  [.made (.create "x") .nonNegativeInteger (handle 1),
    .made (.sum (handle 1) (handle 1)) .anyReal (handle 2),
    .made (.fromConstant 3) Domain.anyReal.asConstant (handle 3),
    .made (.multiply (handle 2) (handle 3)) .anyReal (handle 4),
    .related (handle 4) (handle 1) .lessEqual]

theorem build_tripledDouble : ∃ ss m,
    Build (Model.fresh ⟨0⟩ ({} : Script Rat).service {} []) ss m ∧
      ss.map (·.entry) = tripledDouble ∧ m.backend.problem.columns.length = 4 := by
  have b₀ : Build (Model.fresh ⟨0⟩ ({} : Script Rat).service {} []) [] _ := .new
  have b₁ := b₀.call (e := .made (.create "x") .nonNegativeInteger ⟨⟨0⟩, 0, ⟨1⟩⟩)
    ((create_eq_ok_iff b₀.inStep).2 ⟨⟨rfl, rfl⟩, rfl, rfl, by decide, rfl, rfl⟩)
  have b₂ := b₁.call (e := .made (.sum ⟨⟨0⟩, 0, ⟨1⟩⟩ ⟨⟨0⟩, 0, ⟨1⟩⟩) .anyReal ⟨⟨0⟩, 0, ⟨2⟩⟩)
    ((sum_eq_ok_iff b₁.inStep).2 ⟨⟨rfl, rfl⟩, rfl, rfl, _, _, rfl, rfl, rfl⟩)
  have b₃ := b₂.call (e := .made (.fromConstant 3) Domain.anyReal.asConstant ⟨⟨0⟩, 0, ⟨3⟩⟩)
    ((fromConstant_eq_ok_iff b₂.inStep).2 ⟨⟨rfl, rfl⟩, rfl, rfl, rfl, rfl⟩)
  have b₄ := b₃.call
    (e := .made (.multiply ⟨⟨0⟩, 0, ⟨2⟩⟩ ⟨⟨0⟩, 0, ⟨3⟩⟩) .anyReal ⟨⟨0⟩, 0, ⟨4⟩⟩)
    (multiply_eq_ok_iff.2 ⟨_, _, rfl, rfl, ⟨rfl, rfl⟩, .inl ⟨3, rfl,
      (scale_eq_ok_iff b₃.inStep).2 ⟨⟨rfl, rfl⟩, rfl, rfl, rfl, _, rfl, rfl⟩⟩⟩)
  have b₅ := b₄.call (e := .related ⟨⟨0⟩, 0, ⟨4⟩⟩ ⟨⟨0⟩, 0, ⟨1⟩⟩ .lessEqual)
    ((relate_eq_ok_iff b₄.inStep).2 ⟨⟨rfl, rfl⟩, rfl, rfl, rfl⟩)
  exact ⟨_, _, b₅, rfl, rfl⟩

omit [Codec Rat] in
theorem feasible_iff_calls_hold_tripledDouble :
    ∃ (_ : Codec Rat) (ss : List (Step Rat)) (m : RationalModel),
      Build (Model.fresh ⟨0⟩ ({} : Script Rat).service {} []) ss m ∧
        ss.map (·.entry) = tripledDouble ∧
        ∀ v, m.backend.problem.Feasible v ↔
          ((∃ n : Int, v 0 = n) ∧ 0 ≤ v 0) ∧ v 1 = v 0 + v 0 ∧ v 2 = 3 ∧ v 3 = v 1 * v 2 ∧
            v 3 ≤ v 0 := by
  let _ := Codec.refusing
  obtain ⟨ss, m, hb, hs, -⟩ := build_tripledDouble
  refine ⟨_, ss, m, hb, hs, fun v => ?_⟩
  have he : (∀ s ∈ ss, s.entry.Holds v) ↔ ∀ e ∈ tripledDouble, e.Holds v := by
    rw [← hs, List.forall_mem_map]
  rw [hb.feasible_iff_calls_hold v, he]
  simp [tripledDouble, Entry.Holds, Domain.Contains, Origin.Defines, Domain.nonNegativeInteger,
    Domain.anyReal, Domain.asConstant, Variable.value, ColumnId.offset, Sense.Holds]

end LinearProgram
