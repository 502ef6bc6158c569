import LinearProgram.Proofs.Bookkeeping
import LinearProgram.Proofs.FeasibleMeaning

/-! The constants that a model keeps for its variables. They follow from the equality rows of its
backend, however they were derived from one another, and a load forgets them all. -/

namespace LinearProgram

namespace Model

variable {α β : Type}

/-- Whether the value of the variable is known beforehand. -/
def HasConstant (m : Model α β) (x : Variable) : Prop :=
  ∃ i k, m.info x = .ok i ∧ i.constant = some k

theorem hasConstant_iff {m : Model α β} {x : Variable} {i : VariableInfo α}
    (h : m.info x = .ok i) : m.HasConstant x ↔ i.constant.isSome = true := by
  rw [Option.isSome_iff_exists]
  constructor
  · rintro ⟨j, k, hj, hk⟩
    obtain rfl : i = j := Except.ok.inj (h.symm.trans hj)
    exact ⟨k, hk⟩
  · rintro ⟨k, hk⟩
    exact ⟨i, k, h, hk⟩

theorem hasConstant_grow [Scalar α] (m : Model α (ServiceBackend α)) (info : VariableInfo α) :
    (m.grow info).HasConstant m.newHandle ↔ info.constant.isSome = true := by
  have hlast : (m.grow info).registry.entries[m.newHandle.column.offset]? = some info :=
    List.getElem?_concat_length
  exact hasConstant_iff (Registry.info_eq_ok_iff.2 ⟨m.resolve_newHandle info, hlast⟩)

theorem hasConstant_defined [Scalar α] (m : Model α (ServiceBackend α)) (d : Domain)
    (constant : Option α) (label : String) (operands : LinearRow α) :
    (m.defined d constant label operands).HasConstant m.newHandle ↔ constant.isSome = true :=
  m.countName.hasConstant_grow _

end Model

/-- Whether the operation gives a value known beforehand, its operands being what they are. -/
def Origin.GivesConstant {α β : Type} (m : Model α β) : Origin α → Prop
  | create _ | createAnonymous => False
  | fromConstant _ | namedConstant .. => True
  | sum a b | multiply a b => m.HasConstant a ∧ m.HasConstant b
  | negate a | scale a _ | divide a _ | divideBy a _ => m.HasConstant a

section Results

open Model Call

variable {α : Type} [Scalar α] [Codec α] [ZeroIsNumber α] {m m' : Model α (ServiceBackend α)}
  {d : Domain} {x : Variable}

theorem hasConstant_of_scale (h : m.InStep) {a : Variable} {k : α}
    (hr : scale a k d m = .ok x m') : m'.HasConstant x ↔ m.HasConstant a := by
  obtain ⟨-, -, -, rfl, i, hi, rfl⟩ := (scale_eq_ok_iff h).1 hr
  rw [hasConstant_defined, hasConstant_iff hi, Option.isSome_map]

theorem hasConstant_of_divide (h : m.InStep) {a : Variable} {k : α}
    (hr : divide a k d m = .ok x m') : m'.HasConstant x ↔ m.HasConstant a := by
  obtain ⟨-, -, -, -, rfl, i, hi, rfl⟩ := (divide_eq_ok_iff h).1 hr
  rw [hasConstant_defined, hasConstant_iff hi, Option.isSome_map]

theorem Origin.hasConstant_iff {o : Origin α} (h : m.InStep) (hr : o.call d m = .ok x m') :
    m'.HasConstant x ↔ o.GivesConstant m := by
  cases o with
  | create name =>
    obtain ⟨-, -, -, -, rfl, rfl⟩ := (create_eq_ok_iff h).1 hr
    simp [hasConstant_grow, GivesConstant]
  | createAnonymous =>
    obtain ⟨-, -, rfl, rfl⟩ := (createAnonymous_eq_ok_iff h).1 hr
    exact (m.countName.hasConstant_grow _).trans (by simp [GivesConstant])
  | fromConstant k =>
    obtain ⟨-, -, -, rfl, rfl⟩ := (fromConstant_eq_ok_iff h).1 hr
    exact (m.countName.hasConstant_grow _).trans (by simp [GivesConstant])
  | namedConstant name k =>
    obtain ⟨-, -, -, -, -, rfl, rfl⟩ := (namedConstant_eq_ok_iff h).1 hr
    exact (m.hasConstant_grow _).trans (by simp [GivesConstant])
  | sum a b =>
    obtain ⟨-, -, rfl, i, j, hi, hj, rfl⟩ := (sum_eq_ok_iff h).1 hr
    rw [hasConstant_defined, GivesConstant, Model.hasConstant_iff hi, Model.hasConstant_iff hj]
    cases i.constant <;> cases j.constant <;> simp
  | negate a =>
    obtain ⟨-, -, rfl, i, hi, rfl⟩ := (negate_eq_ok_iff h).1 hr
    rw [hasConstant_defined, GivesConstant, Model.hasConstant_iff hi, Option.isSome_map]
  | scale a k => exact hasConstant_of_scale h hr
  | divide a k => exact hasConstant_of_divide h hr
  | multiply a b =>
    obtain ⟨i, j, hi, hj, -, ⟨k, hk, hr⟩ | ⟨k, hk, hn, hr⟩⟩ := multiply_eq_ok_iff.1 hr
    · rw [hasConstant_of_scale h hr, GivesConstant, Model.hasConstant_iff hj, hk]
      simp
    -- the factor is the first operand only where the second one is not known
    · rw [hasConstant_of_scale h hr, GivesConstant, Model.hasConstant_iff hj, hn]
      simp
  | divideBy a b =>
    obtain ⟨-, -, k, -, -, -, hr⟩ := divideBy_eq_ok_iff.1 hr
    exact hasConstant_of_divide h hr

end Results

def Problem.EqualitiesHold (p : Problem Rat) (v : Assignment) : Prop :=
  ∀ c ∈ p.constraints, c.sense = .equal → c.Satisfied v

namespace Model

variable {m m' : RationalModel}

/-- The constants that the model keeps follow from its equality rows. -/
def ConstantsFollow (m : RationalModel) : Prop :=
  ∀ v, m.backend.problem.EqualitiesHold v → m.Known v

theorem exists_constraints_outcome (m : RationalModel) (p : Draft Rat) :
    ∃ rows, ((Plan.column p).outcome m).backend.problem.constraints =
        m.backend.problem.constraints ++ rows ∧ ∀ c ∈ rows, c.sense = .equal := by
  rw [Plan.outcome]
  cases p.row with
  | none => exact ⟨[], (List.append_nil _).symm, List.forall_mem_nil _⟩
  | some t => exact ⟨_, rfl, List.forall_mem_singleton.2 rfl⟩

variable [Codec Rat]

theorem ConstantsFollow.built (hc : m.ConstantsFollow) (h : m.InStep) {i : Instruction Rat}
    {p : Plan Rat} {r : Answer Rat} (hfits : p.Fits m.registry i)
    (hx : i.call m = .ok r (p.outcome m)) : (p.outcome m).ConstantsFollow := by
  intro v hv
  cases p with
  | column p =>
    cases i with
    | make o d =>
      obtain ⟨x, _, hr, hans⟩ := Call.bind_eq_ok_iff.1 hx
      obtain ⟨-, rfl⟩ := Call.pure_eq_ok_iff.1 hans
      obtain ⟨info, rows, -, ha, hmeans⟩ := (Origin.made h hr).added
      obtain ⟨rows', hrows, heq⟩ := m.exists_constraints_outcome p
      obtain rfl := List.append_cancel_left (ha.constraints.symm.trans hrows)
      rw [Problem.EqualitiesHold, hrows, List.forall_mem_append] at hv
      have hk : m.Known v := hc v hv.1
      have hdefines := (hmeans v hk).1.1 fun c hm => hv.2 c hm (heq c hm)
      exact Entry.known (e := .made o d x) h hr hk hdefines
    | _ => exact hfits.elim
  | relation a b sense => exact hc v fun c hm => hv c (List.mem_append_left _ hm)
  | objective row => exact hc v hv

theorem Moves.constantsFollow {a : Action Rat} {r : Except (ModelError Rat) (Answer Rat)}
    (hm : m.Moves a r m') (h : m.poisoned = false → m.InStep ∧ m.ConstantsFollow)
    (hp : m'.poisoned = false) : m'.ConstantsFollow := by
  cases hm with
  | turnedAway | unsaved | asked => exact (h hp).2
  | built isOpen plan _ call =>
    obtain ⟨hs, hc⟩ := h isOpen.1
    exact hc.built hs (fits_of_plan plan) call
  | solved => exact (h hp).2
  | saved => exact (h hp).2
  | stranded => cases hp
  | unsolved => cases hp
  | unloaded => cases hp
  | @loaded _ _ q =>
    -- no variable that is made for a column read from a file has a constant
    intro v _ i info k hi hk
    obtain ⟨c, -, rfl⟩ := List.mem_map.1 (List.mem_of_getElem? hi)
    cases hk

theorem ConstantsFollow.after (hb : m.Balanced) (h : m.poisoned = false → m.ConstantsFollow)
    (as : List (Action Rat)) (hp : (m.after as).poisoned = false) :
    (m.after as).ConstantsFollow := by
  induction as generalizing m with
  | nil => exact h hp
  | cons a as ih =>
    have hmoves := moves hb.inStep a
    refine ih (hmoves.balanced hb) (fun hq => ?_) hp
    exact hmoves.constantsFollow (fun hm => ⟨hb.inStep hm, h hm⟩) hq

/-- A constant that a model keeps is the value of its variable wherever the equality rows of the
backend hold, and the results of operations have constants when their operands allow it. -/
theorem constants_follow (id : ModelId) (service : SolverService Rat) (config : Config Rat)
    (events : List Event) (as : List (Action Rat)) :
    let m := (Model.fresh id service config events).after as
    m.poisoned = false →
      (∀ v, m.backend.problem.EqualitiesHold v →
        ∀ x i k, m.info x = .ok i → i.constant = some k → x.value v = k) ∧
      ∀ (o : Origin Rat) (d : Domain) (x : Variable) (m' : RationalModel),
        o.call d m = .ok x m' → (m'.HasConstant x ↔ o.GivesConstant m) := by
  intro m hp
  have hfresh := InStep.fresh id service config events
  have hb : m.Balanced := hfresh.balanced.after as
  have hm : m.ConstantsFollow := by
    refine ConstantsFollow.after hfresh.balanced (fun _ v _ i info k hi => ?_) as hp
    simp [fresh, Model.new] at hi
  exact ⟨fun v hv x i k hi hk => (hm v hv).value_eq hi hk,
    fun o d x m' hr => Origin.hasConstant_iff (hb.inStep hp) hr⟩

/-- Two constants after a load, their sum, its product with one of them, and the quotient of that
product by the other. -/
def derived : List (Action Rat) :=
  let handle n : Variable := ⟨⟨0⟩, 1, ⟨n⟩⟩
  opening ++ [.build (.make (.fromConstant 3) .anyReal),
    .build (.make (.namedConstant "half" (1 / 2)) .anyReal),
    .build (.make (.sum (handle 2) (handle 3)) .anyReal),
    .build (.make (.multiply (handle 4) (handle 3)) .anyReal),
    .build (.make (.divideBy (handle 5) (handle 2)) .anyReal)]

omit [Codec Rat] in
theorem constants_follow_derived :
    let _ := Codec.reading filed
    let m := (Model.fresh ⟨0⟩ ({} : Script Rat).service {} []).after derived
    m.poisoned = false ∧
      (∀ v, m.backend.problem.EqualitiesHold v → v 5 = 7 / 12) ∧
      ∀ (d : Domain) (x : Variable) (m' : RationalModel),
        Call.sum ⟨⟨0⟩, 1, ⟨6⟩⟩ ⟨⟨0⟩, 1, ⟨1⟩⟩ d m = .ok x m' → ¬ m'.HasConstant x := by
  intro _ m
  have hp : m.poisoned = false := by decide +kernel
  have hfirst : (m.info ⟨⟨0⟩, 1, ⟨1⟩⟩).toOption.bind (·.constant) = none := by decide +kernel
  obtain ⟨i, hi, hk⟩ : ∃ i ∈ (m.info ⟨⟨0⟩, 1, ⟨6⟩⟩).toOption, i.constant = some (7 / 12) := by
    decide +kernel
  have hfree : ¬ m.HasConstant ⟨⟨0⟩, 1, ⟨1⟩⟩ := by
    rintro ⟨i, k, hi, hk⟩
    rw [hi] at hfirst
    exact Option.some_ne_none k (hk.symm.trans hfirst)
  obtain ⟨hvalue, hgives⟩ := constants_follow ⟨0⟩ ({} : Script Rat).service {} [] derived hp
  rw [show (Model.fresh ⟨0⟩ ({} : Script Rat).service {} []).after derived = m from rfl]
    at hvalue hgives
  clear_value m
  refine ⟨hp, fun v hv => ?_, fun d x m' hr hc => ?_⟩
  · exact hvalue v hv _ i _ (Mps.eq_ok_of_mem_toOption hi) hk
  · exact hfree ((hgives (.sum _ _) d x m' hr).1 hc).2

end Model

end LinearProgram
