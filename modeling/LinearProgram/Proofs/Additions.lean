import Mathlib.Data.List.Nodup
import LinearProgram.Proofs.BuildRun
import LinearProgram.Proofs.NumeralText

/-! What every call that builds brings: at most one variable, under a name that is not taken, and
rows whose right-hand sides have been checked. -/

namespace LinearProgram

variable {α : Type}

namespace Registry

def names (r : Registry α) : List String :=
  r.entries.map (·.name)

theorem isTaken_iff {r : Registry α} {name : String} : r.isTaken name = true ↔ name ∈ r.names := by
  simp [isTaken, names]

theorem generatedName_inj {m n : Nat} (h : generatedName m = generatedName n) : m = n := by
  have hl := congrArg String.toList h
  simp only [generatedName, String.toList_append] at hl
  exact Decimal.repr_inj (String.toList_inj.1 (List.append_cancel_left hl))

/-- Where the search ends on a taken name, it has found no free one on the way. -/
theorem isTaken_of_isTaken_firstFree {r : Registry α} {fuel n : Nat}
    (h : r.isTaken (generatedName (r.firstFree fuel n)) = true) {i : Nat} (hi : i ≤ fuel) :
    r.isTaken (generatedName (n + 1 + i)) = true := by
  induction fuel generalizing n i with
  | zero =>
    obtain rfl : i = 0 := by omega
    exact h
  | succ fuel ih =>
    rw [firstFree] at h
    by_cases ht : r.isTaken (generatedName (n + 1)) = true
    · rw [if_pos ht] at h
      cases i with
      | zero => exact ht
      | succ i =>
        have := ih h (i := i) (by omega)
        rwa [show n + 1 + (i + 1) = n + 1 + 1 + i by omega]
    · rw [if_neg ht] at h
      exact absurd h ht

/-- A generated name is free, since more names are tried than there are variables. -/
theorem isTaken_nextAnonymous (r : Registry α) :
    r.isTaken (generatedName r.nextAnonymous) = false := by
  by_contra h
  have htaken (i : Nat) (hi : i ≤ r.entries.length) :
      generatedName (r.anonymous + 1 + i) ∈ r.names :=
    isTaken_iff.1 (isTaken_of_isTaken_firstFree (Bool.not_eq_false _ ▸ h) hi)
  let tried := (List.range (r.entries.length + 1)).map fun i => generatedName (r.anonymous + 1 + i)
  have hnd : tried.Nodup := by
    refine List.Nodup.map (fun i j hij => ?_) List.nodup_range
    have := generatedName_inj hij
    omega
  have hsub : tried ⊆ r.names := by
    refine List.forall_mem_map.2 fun i hi => htaken i ?_
    have := List.mem_range.1 hi
    omega
  have hlen := (hnd.subperm hsub).length_le
  simp [tried, names] at hlen

end Registry

theorem Domain.name_column [Scalar α] (d : Domain) (name : String) :
    (d.column name : Column α).name = name := by
  unfold column
  cases d.range <;> rfl

namespace Model

variable [Scalar α] {m m' : Model α (ServiceBackend α)} {info : Option (VariableInfo α)}
  {rows : List (Constraint α)}

/-- The right-hand sides that a call gives to its rows. -/
def Checked (b : α) : Prop :=
  b = 0 ∨ Scalar.isFinite b = true

/-- At most one more variable with its column, and the rows that come with it. -/
structure Extends (m m' : Model α (ServiceBackend α)) (info : Option (VariableInfo α))
    (rows : List (Constraint α)) : Prop where
  inStep : m'.InStep
  entries : m'.registry.entries = m.registry.entries ++ info.toList
  columns : m'.backend.problem.columns =
    m.backend.problem.columns ++ info.toList.map fun i => i.domain.column i.name
  constraints : m'.backend.problem.constraints = m.backend.problem.constraints ++ rows
  fresh : ∀ i ∈ info, m.registry.isTaken i.name = false
  checked : ∀ c ∈ rows, Checked c.bound

theorem InStep.extends_refl (h : m.InStep) : m.Extends m none [] :=
  ⟨h, (List.append_nil _).symm, (List.append_nil _).symm, (List.append_nil _).symm,
    fun _ => nofun, List.forall_mem_nil _⟩

theorem InStep.extends_grow (h : m.InStep) {info : VariableInfo α}
    (hf : m.registry.isTaken info.name = false) : m.Extends (m.grow info) (some info) [] :=
  ⟨h.grow info, rfl, rfl, (List.append_nil _).symm, fun _ hi => Option.some.inj hi ▸ hf,
    List.forall_mem_nil _⟩

theorem InStep.extends_growAnonymous (h : m.InStep) (d : Domain) (constant : Option α)
    (expression : Option String) :
    ∃ info, m.Extends (m.growAnonymous d constant expression) info [] := by
  let info : VariableInfo α :=
    ⟨Registry.generatedName m.registry.nextAnonymous, d, constant, expression⟩
  have he : m.countName.Extends (m.countName.grow info) (some info) [] :=
    h.countName.extends_grow m.registry.isTaken_nextAnonymous
  exact ⟨_, he.inStep, he.entries, he.columns, he.constraints, he.fresh, he.checked⟩

theorem Extends.pushRow (h : m.Extends m' info rows) (row : LinearRow α) (sense : Sense) {b : α}
    (hb : Checked b) :
    m.Extends (m'.pushRow row sense b) info (rows ++ [m'.constraintOf row sense b]) where
  inStep := h.inStep.pushRow row sense b
  entries := h.entries
  columns := h.columns
  constraints := by
    rw [← List.append_assoc, ← h.constraints]
    rfl
  fresh := h.fresh
  checked := List.forall_mem_append.2 ⟨h.checked, List.forall_mem_singleton.2 hb⟩

theorem InStep.extends_defined (h : m.InStep) (d : Domain) (constant : Option α) (label : String)
    (operands : LinearRow α) :
    ∃ info rows, m.Extends (m.defined d constant label operands) info rows := by
  obtain ⟨info, he⟩ := h.extends_growAnonymous d constant (some label)
  exact ⟨info, _, he.pushRow _ _ (.inl rfl)⟩

theorem checked_of_admits {d : Domain} {value : α} (h : d.admits value = true) : Checked value := by
  simp only [Domain.admits, Bool.and_eq_true] at h
  exact .inr h.1.1

end Model

open Model Call

variable [Scalar α] [Codec α] [ZeroIsNumber α] {m m' : Model α (ServiceBackend α)} {d : Domain}
  {x : Variable}

theorem extends_of_scale (h : m.InStep) {a : Variable} {k : α} (hr : scale a k d m = .ok x m') :
    ∃ info rows, m.Extends m' info rows := by
  obtain ⟨-, -, -, -, i, -, rfl⟩ := (scale_eq_ok_iff h).1 hr
  exact h.extends_defined ..

theorem extends_of_divide (h : m.InStep) {a : Variable} {k : α} (hr : divide a k d m = .ok x m') :
    ∃ info rows, m.Extends m' info rows := by
  obtain ⟨-, -, -, -, -, i, -, rfl⟩ := (divide_eq_ok_iff h).1 hr
  exact h.extends_defined ..

theorem Origin.extends {o : Origin α} (h : m.InStep) (hr : o.call d m = .ok x m') :
    ∃ info rows, m.Extends m' info rows := by
  cases o with
  | create name =>
    obtain ⟨-, -, hf, -, -, rfl⟩ := (create_eq_ok_iff h).1 hr
    exact ⟨some ⟨name, d, none, none⟩, [], h.extends_grow hf⟩
  | createAnonymous =>
    obtain ⟨-, -, -, rfl⟩ := (createAnonymous_eq_ok_iff h).1 hr
    obtain ⟨info, he⟩ := h.extends_growAnonymous d none none
    exact ⟨info, [], he⟩
  | fromConstant k =>
    obtain ⟨-, -, hk, -, rfl⟩ := (fromConstant_eq_ok_iff h).1 hr
    obtain ⟨info, he⟩ := h.extends_growAnonymous d (some k) (some (Scalar.text k))
    exact ⟨info, _, he.pushRow _ _ (checked_of_admits hk)⟩
  | namedConstant name k =>
    obtain ⟨-, -, hk, hf, -, -, rfl⟩ := (namedConstant_eq_ok_iff h).1 hr
    let info : VariableInfo α := ⟨name, d, some k, some (Scalar.text k)⟩
    have he : m.Extends (m.grow info) (some info) [] := h.extends_grow hf
    exact ⟨_, _, he.pushRow _ _ (checked_of_admits hk)⟩
  | sum a b =>
    obtain ⟨-, -, -, i, j, -, -, rfl⟩ := (sum_eq_ok_iff h).1 hr
    exact h.extends_defined ..
  | negate a =>
    obtain ⟨-, -, -, i, -, rfl⟩ := (negate_eq_ok_iff h).1 hr
    exact h.extends_defined ..
  | scale a k => exact extends_of_scale h hr
  | divide a k => exact extends_of_divide h hr
  | multiply a b =>
    obtain ⟨i, j, -, -, -, ⟨k, -, hr⟩ | ⟨k, -, -, hr⟩⟩ := multiply_eq_ok_iff.1 hr
    · exact extends_of_scale h hr
    · exact extends_of_scale h hr
  | divideBy a b =>
    obtain ⟨-, j, k, -, -, -, hr⟩ := divideBy_eq_ok_iff.1 hr
    exact extends_of_divide h hr

theorem Entry.extends {e : Entry α} (h : m.InStep) (hr : e.Runs m m') :
    ∃ info rows, m.Extends m' info rows := by
  cases e with
  | made o d x => exact Origin.extends h hr
  | related a b sense =>
    obtain ⟨-, -, -, rfl⟩ := (relate_eq_ok_iff h).1 hr
    have he := h.extends_refl.pushRow ((LinearRow.empty.add a.column 1).add b.column (-1)) sense
      (.inl rfl)
    exact ⟨_, _, ⟨he.inStep.entries, he.inStep.columns, he.inStep.rows⟩, he.entries, he.columns,
      he.constraints, he.fresh, he.checked⟩
  | maximized vs =>
    obtain ⟨-, -, rfl⟩ := (maximizeSum_eq_ok_iff h).1 hr
    have he := h.extends_refl
    exact ⟨_, _, ⟨h.entries, h.columns, h.rows⟩, he.entries, he.columns, he.constraints, he.fresh,
      he.checked⟩

namespace Build

variable {id : ModelId} {service : SolverService α} {config : Config α} {events : List Event}
  {ss : List (Step α)}

theorem inStep (hb : Build (Model.fresh id service config events) ss m) : m.InStep := by
  induction hb with
  | new => exact .fresh id service config events
  | call _ hr ih =>
    obtain ⟨info, rows, he⟩ := Entry.extends ih hr
    exact he.inStep

theorem names_columns (hb : Build (Model.fresh id service config events) ss m) :
    m.backend.problem.columns.map (·.name) = m.registry.names := by
  induction hb with
  | new => rfl
  | call hb hr ih =>
    obtain ⟨info, rows, he⟩ := Entry.extends hb.inStep hr
    rw [he.columns, Registry.names, he.entries, List.map_append, List.map_append, ih]
    simp [Domain.name_column, Registry.names]

theorem nodup_names (hb : Build (Model.fresh id service config events) ss m) :
    m.registry.names.Nodup := by
  induction hb with
  | new => exact List.nodup_nil
  | @call ss m m' e hb hr ih =>
    obtain ⟨info, rows, he⟩ := Entry.extends hb.inStep hr
    rw [Registry.names, he.entries, List.map_append]
    cases info with
    | none =>
      rw [Option.toList_none, List.map_nil, List.append_nil]
      exact ih
    | some i =>
      have hf : i.name ∉ m.registry.names := by
        rw [← Registry.isTaken_iff, he.fresh i rfl]
        decide
      have hnd := ih.concat hf
      rwa [List.concat_eq_append] at hnd

theorem checked_bounds (hb : Build (Model.fresh id service config events) ss m) :
    ∀ c ∈ m.backend.problem.constraints, Checked c.bound := by
  induction hb with
  | new => exact List.forall_mem_nil _
  | call hb hr ih =>
    obtain ⟨info, rows, he⟩ := Entry.extends hb.inStep hr
    rw [he.constraints]
    exact List.forall_mem_append.2 ⟨ih, he.checked⟩

end Build

end LinearProgram
