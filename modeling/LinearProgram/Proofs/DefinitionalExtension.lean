import LinearProgram.Proofs.FeasibleMeaning

/-! The rows that come with variables are definitions. Values for the variables that the caller
chose extend to all columns in one way, in which every column has the value of its expression. -/

namespace LinearProgram

open Model Call

/-- What a variable was computed from, down to the variables that the caller chose. -/
inductive Expr where
  | given (column : Nat)
  | constant (k : Rat)
  | sum (a b : Expr)
  | negate (a : Expr)
  | scale (a : Expr) (k : Rat)
  | divide (a : Expr) (k : Rat)
  | multiply (a b : Expr)
  | divideBy (a b : Expr)

def Expr.value (u : Assignment) : Expr → Rat
  | given i => u i
  | constant k => k
  | sum a b => a.value u + b.value u
  | negate a => -a.value u
  | scale a k => k * a.value u
  | divide a k => a.value u / k
  | multiply a b => a.value u * b.value u
  | divideBy a b => a.value u / b.value u

/-- The expression of a result, from those of the operands. -/
def Origin.expr (t : Nat → Expr) (i : Nat) : Origin Rat → Expr
  | create _ | createAnonymous => .given i
  | fromConstant k | namedConstant _ k => .constant k
  | sum a b => .sum (t a.column.offset) (t b.column.offset)
  | negate a => .negate (t a.column.offset)
  | scale a k => .scale (t a.column.offset) k
  | divide a k => .divide (t a.column.offset) k
  | multiply a b => .multiply (t a.column.offset) (t b.column.offset)
  | divideBy a b => .divideBy (t a.column.offset) (t b.column.offset)

def Entry.note (t : Nat → Expr) : Entry Rat → Nat → Expr
  | made o _ x => Function.update t x.column.offset (o.expr t x.column.offset)
  | _ => t

def expressions (ss : List (Step Rat)) : Nat → Expr :=
  (ss.map (·.entry)).foldl Entry.note .given

theorem expressions_concat (ss : List (Step Rat)) (s : Step Rat) :
    expressions (ss ++ [s]) = s.entry.note (expressions ss) := by
  rw [expressions, List.map_append, List.foldl_append]
  rfl

/-- The values agree on the variables of the caller, and the defining rows hold. -/
structure Extends (ss : List (Step Rat)) (u v : Assignment) : Prop where
  agrees : ∀ s ∈ ss, ∀ o d x, s.entry = .made o d x → o.isFree = true → x.value v = x.value u
  rows : ∀ c ∈ definingRows ss, c.Satisfied v

/-- A result is defined where it has the value of its expression. -/
theorem Origin.defines_iff {o : Origin Rat} {t : Nat → Expr} {u v : Assignment} {x : Variable}
    (ho : ∀ a ∈ o.operands, a.value v = (t a.column.offset).value u) :
    (o.isFree = true → x.value v = x.value u) ∧ o.Defines v (x.value v) ↔
      x.value v = (o.expr t x.column.offset).value u := by
  cases o <;> simp_all [isFree, Defines, expr, Expr.value, operands, Variable.value]

variable [Codec Rat] {m m' : RationalModel}

theorem Origin.operands_lt {o : Origin Rat} {d : Domain} {x : Variable} (h : m.InStep)
    (hr : o.call d m = .ok x m') :
    ∀ a ∈ o.operands, a.column.offset < m.registry.entries.length := by
  have hinfo {a : Variable} {i : VariableInfo Rat} (ha : m.registry.info a = .ok i) :
      a.column.offset < m.registry.entries.length :=
    (Registry.resolve_eq_ok_iff.1 (Registry.info_eq_ok_iff.1 ha).1).2.2.2.2
  cases o with
  | create | createAnonymous | fromConstant | namedConstant => nofun
  | sum a b =>
    obtain ⟨-, -, -, i, j, hi, hj, -⟩ := (sum_eq_ok_iff h).1 hr
    simpa [operands] using ⟨hinfo hi, hinfo hj⟩
  | negate a =>
    obtain ⟨-, -, -, i, hi, -⟩ := (negate_eq_ok_iff h).1 hr
    simpa [operands] using hinfo hi
  | scale a k =>
    obtain ⟨-, -, -, -, i, hi, -⟩ := (scale_eq_ok_iff h).1 hr
    simpa [operands] using hinfo hi
  | divide a k =>
    obtain ⟨-, -, -, -, -, i, hi, -⟩ := (divide_eq_ok_iff h).1 hr
    simpa [operands] using hinfo hi
  | multiply a b =>
    obtain ⟨i, j, hi, hj, -⟩ := multiply_eq_ok_iff.1 hr
    simpa [operands] using ⟨hinfo hi, hinfo hj⟩
  | divideBy a b =>
    obtain ⟨ha, j, k, hj, -⟩ := divideBy_eq_ok_iff.1 hr
    simpa [operands] using ⟨(Registry.resolve_eq_ok_iff.1 ha).2.2.2.2, hinfo hj⟩

namespace Build

variable {id : ModelId} {service : SolverService Rat} {config : Config Rat} {events : List Event}
  {ss : List (Step Rat)}

theorem extends_concat (hb : Build (Model.fresh id service config events) ss m) {e : Entry Rat}
    (hr : e.Runs m m') {u v : Assignment} :
    Extends (ss ++ [⟨e, m'.backend.problem.constraints.drop
        m.backend.problem.constraints.length⟩]) u v ↔
      Extends ss u v ∧
        (∀ o d x, e = .made o d x → o.isFree = true → x.value v = x.value u) ∧ e.Defined v := by
  have hnew := (hb.call hr).definingRows_satisfied_iff (v := v)
  have hold := hb.definingRows_satisfied_iff (v := v)
  rw [List.forall_mem_append, List.forall_mem_singleton, ← hold] at hnew
  constructor
  · rintro ⟨ha, hc⟩
    rw [List.forall_mem_append, List.forall_mem_singleton] at ha
    exact ⟨⟨ha.1, (hnew.1 hc).1⟩, ha.2, (hnew.1 hc).2⟩
  · rintro ⟨⟨ha, hc⟩, he, hd⟩
    exact ⟨List.forall_mem_append.2 ⟨ha, List.forall_mem_singleton.2 he⟩, hnew.2 ⟨hc, hd⟩⟩

/-- The extensions are the assignments that give every column the value of its expression. -/
theorem extends_iff (hb : Build (Model.fresh id service config events) ss m)
    {u v : Assignment} :
    Extends ss u v ↔
      ∀ i < m.registry.entries.length, v i = (expressions ss i).value u := by
  induction hb with
  | new =>
    refine iff_of_true ⟨by simp, by simp [definingRows]⟩ ?_
    simp [Model.fresh, Model.new]
  | @call ss m m' e hb hr ih =>
    rw [hb.extends_concat hr, expressions_concat]
    cases e with
    | made o d x =>
      have hm := Origin.made hb.inStep hr
      obtain ⟨info, rows, -, ha, -⟩ := hm.added
      have hx : x.column.offset = m.registry.entries.length := by
        rw [← hm.handle]
        rfl
      rw [ha.entries, List.length_append, List.length_singleton, Nat.forall_lt_succ_right]
      have hold : (∀ i < m.registry.entries.length,
            v i = ((Entry.made o d x).note (expressions ss) i).value u) ↔
          ∀ i < m.registry.entries.length, v i = (expressions ss i).value u := by
        refine forall₂_congr fun i hi => ?_
        rw [Entry.note, Function.update_of_ne (by omega)]
      rw [hold, ← ih]
      refine and_congr_right fun he => ?_
      have hops (a : Variable) (hm : a ∈ o.operands) :
          a.value v = (expressions ss a.column.offset).value u :=
        ih.1 he _ (Origin.operands_lt hb.inStep hr a hm)
      rw [← hx, Entry.note, Function.update_self]
      exact Iff.trans (by simp [Entry.Defined]) (Origin.defines_iff hops)
    | related a b sense =>
      rw [(relate_spec hb.inStep hr).2.1]
      simpa [Entry.Defined, Entry.note] using ih
    | maximized vs =>
      rw [(maximizeSum_spec hb.inStep hr).2.1]
      simpa [Entry.Defined, Entry.note] using ih

theorem extends_uniquely (hb : Build (Model.fresh id service config events) ss m)
    (u : Assignment) :
    (∃ v, Extends ss u v ∧
      ∀ w, Extends ss u w → ∀ i < m.backend.problem.columns.length, w i = v i) ∧
    ∀ v, Extends ss u v →
      ∀ i < m.backend.problem.columns.length, v i = (expressions ss i).value u := by
  have hv : Extends ss u fun i => (expressions ss i).value u :=
    hb.extends_iff.2 fun _ _ => rfl
  rw [← hb.inStep.entries]
  exact ⟨⟨_, hv, fun w hw => hb.extends_iff.1 hw⟩, fun v hv => hb.extends_iff.1 hv⟩

omit [Codec Rat] in
theorem extends_uniquely_tripledDouble :
    ∃ (_ : Codec Rat) (ss : List (Step Rat)) (m : RationalModel),
      Build (Model.fresh ⟨0⟩ ({} : Script Rat).service {} []) ss m ∧
        ss.map (·.entry) = tripledDouble ∧ m.backend.problem.columns.length = 4 ∧
        ∀ u, (∃ v, Extends ss u v) ∧
          ∀ v, Extends ss u v → v 1 = u 0 + u 0 ∧ v 2 = 3 ∧ v 3 = (u 0 + u 0) * 3 := by
  let _ := Codec.refusing
  obtain ⟨ss, m, hb, hs, hc⟩ := build_tripledDouble
  refine ⟨_, ss, m, hb, hs, hc, fun u => ?_⟩
  obtain ⟨⟨v, hv, -⟩, hu⟩ := hb.extends_uniquely u
  refine ⟨⟨v, hv⟩, fun w hw => ?_⟩
  have he (i : Nat) (hi : i < 4) := hu w hw i (hc ▸ hi)
  rw [expressions, hs] at he
  exact ⟨he 1 (by decide), he 2 (by decide), he 3 (by decide)⟩

end Build

end LinearProgram
