import LinearProgram.Proofs.Additions
import LinearProgram.Proofs.Feasible

/-! The rows that come with a variable say what it is, once the constants that the model keeps
agree with the values of their columns. -/

namespace LinearProgram

def Variable.value (x : Variable) (v : Assignment) : Rat :=
  v x.column.offset

abbrev RationalModel := Model Rat (ServiceBackend Rat)

/-- What the operation asks of the value of its result. -/
def Origin.Defines (v : Assignment) (y : Rat) : Origin Rat → Prop
  | create _ | createAnonymous => True
  | fromConstant k | namedConstant _ k => y = k
  | sum a b => y = a.value v + b.value v
  | negate a => y = -a.value v
  | scale a k => y = k * a.value v
  | divide a k => y = a.value v / k
  | multiply a b => y = a.value v * b.value v
  | divideBy a b => y = a.value v / b.value v

namespace Model

/-- The constants that the model keeps are the values of their columns. -/
def Known (m : RationalModel) (v : Assignment) : Prop :=
  ∀ (i : Nat) (info : VariableInfo Rat) (k : Rat),
    m.registry.entries[i]? = some info → info.constant = some k → v i = k

theorem Known.value_eq {m : RationalModel} {v : Assignment} (h : m.Known v) {a : Variable}
    {x : VariableInfo Rat} {k : Rat} (hx : m.registry.info a = .ok x) (hk : x.constant = some k) :
    a.value v = k :=
  h _ x k (Registry.info_eq_ok_iff.1 hx).2 hk

/-- One more variable, with rows that hold where its value means what it should. -/
structure Made (m m' : RationalModel) (d : Domain) (x : Variable) (Means : Assignment → Prop) :
    Prop where
  handle : m.newHandle = x
  supported : d.isSupported = true
  added : ∃ info rows, info.domain = d ∧ m.Adds m' info rows ∧ ∀ v, m.Known v →
    ((∀ c ∈ rows, c.Satisfied v) ↔ Means v) ∧ (Means v → ∀ k ∈ info.constant, x.value v = k)

theorem Made.congr {m m' : RationalModel} {d : Domain} {x : Variable}
    {P Q : Assignment → Prop} (h : m.Made m' d x P) (hpq : ∀ v, m.Known v → (P v ↔ Q v)) :
    m.Made m' d x Q := by
  obtain ⟨info, rows, hd, ha, hv⟩ := h.added
  refine ⟨h.handle, h.supported, info, rows, hd, ha, fun v hk => ?_⟩
  rw [← hpq v hk]
  exact hv v hk

variable {m : RationalModel} {d : Domain}

/-- A name taken on the way changes nothing here. -/
theorem Made.of_countName {m' : RationalModel} {x : Variable} {Means : Assignment → Prop}
    (h : m.countName.Made m' d x Means) : m.Made m' d x Means := by
  obtain ⟨info, rows, hd, ha, hv⟩ := h.added
  exact ⟨h.handle, h.supported, info, rows, hd,
    ⟨ha.inStep, ha.entries, ha.columns, ha.constraints⟩, hv⟩

theorem InStep.made_grow (h : m.InStep) {info : VariableInfo Rat}
    (hd : info.domain.isSupported = true) (hc : info.constant = none) :
    m.Made (m.grow info) info.domain m.newHandle fun _ => True where
  handle := rfl
  supported := hd
  added := ⟨info, [], rfl, h.adds_grow info, fun v _ => by simp [hc]⟩

theorem InStep.made_row (h : m.InStep) {info : VariableInfo Rat} {row : LinearRow Rat} {b : Rat}
    (hd : info.domain.isSupported = true)
    (hc : ∀ v, m.Known v → row.value v = b → ∀ k ∈ info.constant, m.newHandle.value v = k) :
    m.Made ((m.grow info).pushRow row .equal b) info.domain m.newHandle
      fun v => row.value v = b where
  handle := rfl
  supported := hd
  added := by
    refine ⟨info, _, rfl, (h.adds_grow info).pushRow row .equal b, fun v hk => ⟨?_, hc v hk⟩⟩
    rw [List.nil_append, List.forall_mem_singleton, Constraint.Satisfied, constraintOf,
      LinearRow.termsValue_offsetTerms]
    rfl

theorem InStep.made_pinned (h : m.InStep) {info : VariableInfo Rat} {k : Rat}
    (hd : info.domain.isSupported = true) (hc : info.constant = some k) :
    m.Made ((m.grow info).pinned m.registry.nextColumn k) info.domain m.newHandle
      fun v => m.newHandle.value v = k := by
  have hrow (v : Assignment) :
      (LinearRow.empty.add m.registry.nextColumn 1).value v = m.newHandle.value v := by
    rw [LinearRow.value_add, LinearRow.value_empty, zero_add, one_mul]
    rfl
  refine (h.made_row hd fun v _ hv => ?_).congr fun v _ => by rw [hrow]
  rw [hc, ← hrow, hv]
  rintro _ ⟨⟩
  rfl

theorem InStep.made_defined (h : m.InStep) {constant : Option Rat} {label : String}
    {operands : LinearRow Rat} (hd : d.isSupported = true)
    (hc : ∀ v, m.Known v → ∀ k ∈ constant, operands.value v = k) :
    m.Made (m.defined d constant label operands) d m.newHandle
      fun v => m.newHandle.value v = operands.value v := by
  have hrow (v : Assignment) : (operands.add m.registry.nextColumn (-1)).value v = 0 ↔
      m.newHandle.value v = operands.value v := by
    rw [LinearRow.value_add, neg_one_mul, ← sub_eq_add_neg, sub_eq_zero]
    exact eq_comm
  refine Made.of_countName ((h.countName.made_row hd fun v hk hv k hk' => ?_).congr fun v _ => hrow v)
  exact ((hrow v).1 hv).trans (hc v hk k hk')

theorem InStep.made_unary (h : m.InStep) {a : Variable} {i : VariableInfo Rat} {label : String}
    {k : Rat} {f : Rat → Rat} (hd : d.isSupported = true) (hi : m.registry.info a = .ok i)
    (hf : ∀ z, k * z = f z) :
    m.Made (m.defined d (i.constant.map f) label (LinearRow.empty.add a.column k)) d m.newHandle
      fun v => m.newHandle.value v = f (a.value v) := by
  have hrow (v : Assignment) : (LinearRow.empty.add a.column k).value v = f (a.value v) := by
    rw [LinearRow.value_add, LinearRow.value_empty, zero_add, ← hf]
    rfl
  refine (h.made_defined hd fun v hk c hc => ?_).congr fun v _ => by rw [hrow]
  obtain ⟨z, hz, rfl⟩ := Option.map_eq_some_iff.1 hc
  rw [hrow, hk.value_eq hi hz]

end Model

open Model Call

variable [Codec Rat] {m m' : RationalModel} {d : Domain} {x : Variable}

theorem made_of_scale (h : m.InStep) {a : Variable} {k : Rat}
    (hr : scale a k d m = .ok x m') : m.Made m' d x fun v => x.value v = k * a.value v := by
  obtain ⟨-, -, hd, rfl, i, hi, rfl⟩ := (scale_eq_ok_iff h).1 hr
  exact h.made_unary hd hi fun _ => rfl

theorem made_of_divide (h : m.InStep) {a : Variable} {k : Rat}
    (hr : divide a k d m = .ok x m') : m.Made m' d x fun v => x.value v = a.value v / k := by
  obtain ⟨-, -, -, hd, rfl, i, hi, rfl⟩ := (divide_eq_ok_iff h).1 hr
  exact h.made_unary hd hi fun z => one_div_mul_eq_div k z

theorem made_of_negate (h : m.InStep) {a : Variable} (hr : negate a d m = .ok x m') :
    m.Made m' d x fun v => x.value v = -a.value v := by
  obtain ⟨-, hd, rfl, i, hi, rfl⟩ := (negate_eq_ok_iff h).1 hr
  exact h.made_unary hd hi neg_one_mul

theorem made_of_sum (h : m.InStep) {a b : Variable} (hr : sum a b d m = .ok x m') :
    m.Made m' d x fun v => x.value v = a.value v + b.value v := by
  obtain ⟨-, hd, rfl, i, j, hi, hj, rfl⟩ := (sum_eq_ok_iff h).1 hr
  have hrow (v : Assignment) :
      ((LinearRow.empty.add a.column 1).add b.column 1).value v = a.value v + b.value v := by
    rw [LinearRow.value_add, LinearRow.value_add, LinearRow.value_empty, zero_add, one_mul, one_mul]
    rfl
  refine (h.made_defined hd fun v hk c hc => ?_).congr fun v _ => by rw [hrow]
  cases hx : i.constant with
  | none => simp [hx] at hc
  | some s =>
    cases hy : j.constant with
    | none => simp [hx, hy] at hc
    | some t =>
      obtain rfl : s + t = c := by simpa [hx, hy] using hc
      rw [hrow, hk.value_eq hi hx, hk.value_eq hj hy]

theorem Origin.made {o : Origin Rat} (h : m.InStep) (hr : o.call d m = .ok x m') :
    m.Made m' d x fun v => o.Defines v (x.value v) := by
  cases o with
  | create name =>
    obtain ⟨-, hd, -, -, rfl, rfl⟩ := (create_eq_ok_iff h).1 hr
    exact h.made_grow hd rfl
  | createAnonymous =>
    obtain ⟨-, hd, rfl, rfl⟩ := (createAnonymous_eq_ok_iff h).1 hr
    exact (h.countName.made_grow hd rfl).of_countName
  | fromConstant k =>
    obtain ⟨-, hd, -, rfl, rfl⟩ := (fromConstant_eq_ok_iff h).1 hr
    exact (h.countName.made_pinned hd rfl).of_countName
  | namedConstant name k =>
    obtain ⟨-, hd, -, -, -, rfl, rfl⟩ := (namedConstant_eq_ok_iff h).1 hr
    exact h.made_pinned hd rfl
  | sum a b => exact made_of_sum h hr
  | negate a => exact made_of_negate h hr
  | scale a k => exact made_of_scale h hr
  | divide a k => exact made_of_divide h hr
  | multiply a b =>
    obtain ⟨i, j, hi, hj, -, ⟨k, hk, hr⟩ | ⟨k, hk, -, hr⟩⟩ := multiply_eq_ok_iff.1 hr
    · refine (made_of_scale h hr).congr fun v hv => ?_
      rw [Defines, hv.value_eq hj hk, mul_comm]
    · refine (made_of_scale h hr).congr fun v hv => ?_
      rw [Defines, hv.value_eq hi hk]
  | divideBy a b =>
    obtain ⟨-, j, k, hj, -, hk, hr⟩ := divideBy_eq_ok_iff.1 hr
    refine (made_of_divide h hr).congr fun v hv => ?_
    rw [Defines, hv.value_eq hj hk]

theorem relate_spec (h : m.InStep) {a b : Variable} {sense : Sense} {u : Unit}
    (hr : relate a b sense m = .ok u m') :
    m'.InStep ∧ m'.registry = m.registry ∧
      m'.backend.problem.columns = m.backend.problem.columns ∧
      ∃ c, m'.backend.problem.constraints = m.backend.problem.constraints ++ [c] ∧
        ∀ v, c.Satisfied v ↔ sense.Holds (a.value v) (b.value v) := by
  obtain ⟨-, -, -, rfl⟩ := (relate_eq_ok_iff h).1 hr
  have hs := h.pushRow ((LinearRow.empty.add a.column 1).add b.column (-1)) sense 0
  refine ⟨⟨hs.entries, hs.columns, hs.rows⟩, rfl, rfl, _, rfl, fun v => ?_⟩
  rw [Constraint.Satisfied, LinearRow.termsValue_offsetTerms, LinearRow.value_add,
    LinearRow.value_add, LinearRow.value_empty, zero_add, one_mul, neg_one_mul, ← sub_eq_add_neg]
  exact Sense.holds_sub_zero

theorem maximizeSum_spec (h : m.InStep) {vs : List Variable} {u : Unit}
    (hr : maximizeSum vs m = .ok u m') :
    m'.InStep ∧ m'.registry = m.registry ∧
      m'.backend.problem.columns = m.backend.problem.columns ∧
      m'.backend.problem.constraints = m.backend.problem.constraints := by
  obtain ⟨-, -, rfl⟩ := (maximizeSum_eq_ok_iff h).1 hr
  exact ⟨⟨h.entries, h.columns, h.rows⟩, rfl, rfl, rfl⟩

namespace Entry

def Defined (v : Assignment) : Entry Rat → Prop
  | made o _ x => o.Defines v (x.value v)
  | _ => True

/-- A constant that is kept for a new variable follows from what the variable is. -/
theorem known {e : Entry Rat} (h : m.InStep) (hr : e.Runs m m') {v : Assignment}
    (hk : m.Known v) (hd : e.Defined v) : m'.Known v := by
  cases e with
  | made o d x =>
    have hm := Origin.made h hr
    obtain ⟨info, rows, -, ha, hv⟩ := hm.added
    have hx := (hv v hk).2 hd
    intro i j k hj hc
    rw [ha.entries] at hj
    rcases Nat.lt_trichotomy i m.registry.entries.length with hi | rfl | hi
    · rw [List.getElem?_append_left hi] at hj
      exact hk i j k hj hc
    · rw [List.getElem?_concat_length] at hj
      obtain rfl := Option.some.inj hj
      have := hx k hc
      rwa [← hm.handle] at this
    · rw [List.getElem?_eq_none (by simp; omega)] at hj
      cases hj
  | related a b sense =>
    rw [Known, (relate_spec h hr).2.1]
    exact hk
  | maximized vs =>
    rw [Known, (maximizeSum_spec h hr).2.1]
    exact hk

end Entry

namespace Build

variable {id : ModelId} {service : SolverService Rat} {config : Config Rat} {events : List Event}
  {ss : List (Step Rat)}

theorem known (hb : Build (Model.fresh id service config events) ss m) {v : Assignment}
    (hd : ∀ s ∈ ss, s.entry.Defined v) : m.Known v := by
  induction hb with
  | new =>
    intro i info k hi
    simp [fresh, Model.new] at hi
  | call hb hr ih =>
    simp only [List.forall_mem_append, List.forall_mem_singleton] at hd
    exact Entry.known hb.inStep hr (ih hd.1) hd.2

/-- The defining rows hold where every variable is what its operation says. -/
theorem definingRows_satisfied_iff (hb : Build (Model.fresh id service config events) ss m)
    {v : Assignment} :
    (∀ c ∈ definingRows ss, c.Satisfied v) ↔ ∀ s ∈ ss, s.entry.Defined v := by
  induction hb with
  | new => simp [definingRows]
  | @call ss m m' e hb hr ih =>
    rw [definingRows_concat, List.forall_mem_append, List.forall_mem_append,
      List.forall_mem_singleton, ih]
    refine and_congr_right fun hd => ?_
    cases e with
    | made o d x =>
      obtain ⟨info, rows, -, ha, hv⟩ := (Origin.made hb.inStep hr).added
      rw [ha.drop_eq, definingRows, List.flatMap_singleton]
      exact (hv v (hb.known hd)).1
    | related a b sense => simp [definingRows, Entry.Defined]
    | maximized vs => simp [definingRows, Entry.Defined]

end Build

end LinearProgram
