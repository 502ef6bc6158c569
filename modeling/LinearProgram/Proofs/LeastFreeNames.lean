import Mathlib.Order.Bounds.Basic
import LinearProgram.Proofs.GeneratedNames
import LinearProgram.Proofs.Poisoning

/-! A generated name has the least number that is free. Whatever the calls of a session met, the
counter of a model that can still be used has not passed a free name, so the search, which only
goes on from there, ends at the first one. -/

namespace LinearProgram

variable {α β : Type}

namespace Registry

variable {r : Registry α} {n k : Nat}

/-- The search for a free name, which tries one number after another and is never told to stop:
from `n` on it comes to `k`. -/
inductive Finds (r : Registry α) : Nat → Nat → Prop where
  | free {n : Nat} (h : r.isTaken (generatedName (n + 1)) = false) : r.Finds n (n + 1)
  | taken {n k : Nat} (h : r.isTaken (generatedName (n + 1)) = true) (rest : r.Finds (n + 1) k) :
    r.Finds n k

theorem Finds.unique {j : Nat} (hj : r.Finds n j) (hk : r.Finds n k) : j = k := by
  induction hj with
  | free h =>
    cases hk with
    | free => rfl
    | taken h' => cases h.symm.trans h'
  | taken h rest ih =>
    cases hk with
    | free h' => cases h'.symm.trans h
    | taken h' rest' => exact ih rest'

theorem finds_firstFree {fuel : Nat}
    (h : r.isTaken (generatedName (r.firstFree fuel n)) = false) :
    r.Finds n (r.firstFree fuel n) := by
  induction fuel generalizing n with
  | zero => exact .free h
  | succ fuel ih =>
    rw [firstFree] at h ⊢
    by_cases ht : r.isTaken (generatedName (n + 1)) = true
    · rw [if_pos ht] at h ⊢
      exact .taken ht (ih h)
    · rw [if_neg ht]
      exact .free (Bool.eq_false_of_not_eq_true ht)

/-- The search ends. It is bounded by the number of variables, and that many tries are enough. -/
theorem finds_iff : r.Finds r.anonymous k ↔ k = r.nextAnonymous := by
  have hfinds : r.Finds r.anonymous r.nextAnonymous := finds_firstFree r.isTaken_nextAnonymous
  constructor
  · exact fun h => h.unique hfinds
  · rintro rfl
    exact hfinds

/-- The numbers whose names are free. -/
def freeNumbers (r : Registry α) : Set Nat :=
  {j | 0 < j ∧ generatedName j ∉ r.names}

theorem Counted.isLeast (h : r.Counted) : IsLeast r.freeNumbers r.nextAnonymous := by
  constructor
  · refine ⟨Nat.zero_lt_of_lt (r.lt_firstFree _ _), fun hmem => ?_⟩
    have htaken := isTaken_iff.2 hmem
    rw [r.isTaken_nextAnonymous] at htaken
    cases htaken
  · rintro j ⟨hpos, hfree⟩
    by_contra hlt
    exact hfree (isTaken_iff.1 (h.isTaken_of_lt hpos (Nat.lt_of_not_le hlt)))

theorem counted_of_anonymous_eq_zero (h : r.anonymous = 0) : r.Counted := by
  intro j hpos hj
  omega

end Registry

section Calls

variable [Scalar α] [Backend α β] {m m' : Model α β}

namespace Call

theorem registry_of_emitRow {row : LinearRow α} {sense : Sense} {bound : α} {u : Unit}
    (h : emitRow row sense bound m = .ok u m') : m'.registry = m.registry := by
  obtain ⟨_, m₁, hsend, h⟩ := bind_eq_ok_iff.1 h
  obtain ⟨b, rfl⟩ := exists_of_request hsend
  cases h
  rfl

theorem registry_of_tie {row : Option (LinearRow α × α)} {u : Unit} (h : tie row m = .ok u m') :
    m'.registry = m.registry := by
  cases row with
  | none =>
    obtain ⟨-, rfl⟩ := pure_eq_ok_iff.1 h
    rfl
  | some row => exact registry_of_emitRow h

end Call

open Call

theorem Draft.registry_of_execute {p : Draft α} {v : Variable} (h : p.execute m = .ok v m') :
    v = m.newHandle ∧ m'.registry = p.register m.registry := by
  obtain ⟨_, m₁, hcount, h⟩ := bind_eq_ok_iff.1 h
  obtain rfl := modify_eq_ok_iff.1 hcount
  obtain ⟨w, m₂, hallocate, h⟩ := bind_eq_ok_iff.1 h
  obtain ⟨hw, hm⟩ := registry_of_allocate hallocate
  obtain ⟨_, m₃, htie, h⟩ := bind_eq_ok_iff.1 h
  obtain ⟨rfl, rfl⟩ := pure_eq_ok_iff.1 h
  exact ⟨hw, (registry_of_tie htie).trans hm⟩

theorem Plan.registry_of_execute {p : Plan α} {r : Answer α} (h : p.execute m = .ok r m') :
    (∃ d, p = .column d ∧ m'.registry = d.register m.registry) ∨ m'.registry = m.registry := by
  cases p with
  | column d =>
    obtain ⟨v, m₁, hd, h⟩ := bind_eq_ok_iff.1 h
    obtain ⟨-, rfl⟩ := pure_eq_ok_iff.1 h
    exact .inl ⟨d, rfl, (Draft.registry_of_execute hd).2⟩
  | relation a b sense =>
    obtain ⟨_, m₁, hrow, h⟩ := bind_eq_ok_iff.1 h
    have hkept := registry_of_emitRow hrow
    cases h
    exact .inr hkept
  | objective row =>
    obtain ⟨_, m₁, hset, h⟩ := bind_eq_ok_iff.1 h
    obtain rfl := modify_eq_ok_iff.1 hset
    obtain ⟨_, m₂, hsend, h⟩ := bind_eq_ok_iff.1 h
    obtain ⟨b, rfl⟩ := exists_of_request hsend
    cases h
    exact .inr rfl

theorem Instruction.yields_counts (r : Registry α) (i : Instruction α) :
    Yields (fun p => ∀ d, p = .column d → d.Counts r) (i.plan r) := by
  cases i with
  | make o d =>
    refine (o.yields_draft r d).bind fun p hp => yields_of_ok ?_
    rintro _ ⟨⟩
    exact hp
  | relate a b sense => exact .after fun _ => .after fun _ => yields_of_ok nofun
  | maximize v => exact .after fun _ => yields_of_ok nofun
  | maximizeSum vs => exact .after fun _ => yields_of_ok nofun

theorem Instruction.counted_of_ok {i : Instruction α} {r : Answer α} (hm : m.registry.Counted)
    (h : i.call m = .ok r m') : m'.registry.Counted := by
  rw [instruction_eq] at h
  cases hp : m.plan i with
  | error e =>
    rw [hp] at h
    cases h
  | ok p =>
    rw [hp] at h
    have hcounts : ∀ d, p = .column d → d.Counts m.registry :=
      Yields.after (fun _ => i.yields_counts m.registry) p hp
    obtain ⟨d, rfl, hregistry⟩ | hregistry := Plan.registry_of_execute h
    · exact hregistry ▸ hm.register (hcounts d rfl)
    · exact hregistry ▸ hm

omit [Scalar α] in
theorem Call.registry_of_solve {s : Status} (h : solve m = .ok s m') :
    m'.registry = m.registry := by
  have hchecks := m.checks_buildable
  cases hb : m.buildable with
  | error e => cases (solve_of_not_open hb).symm.trans h
  | ok u =>
    rw [hb] at hchecks
    cases hs : Backend.solve m.backend with
    | ok r b =>
      obtain ⟨events, hsolve⟩ := solve_of_ok hchecks hs
      cases hsolve.symm.trans h
      rfl
    | error e b =>
      obtain ⟨events, hsolve⟩ := solve_of_error hchecks hs
      cases hsolve.symm.trans h

theorem Call.anonymous_of_load {path : String} {files : Files} {s : Snapshot}
    (h : load path files m = .ok s m') : m'.registry.anonymous = 0 := by
  cases hp : m.poisoned with
  | true => cases (load_of_poisoned hp).symm.trans h
  | false =>
    cases hl : Backend.load path files m.backend with
    | error e b => cases (load_of_error hp hl).symm.trans h
    | ok reported b =>
      cases hh : Model.heldVariables b with
      | error e =>
        obtain ⟨events, hload⟩ := load_of_unheld hp hl hh
        cases hload.symm.trans h
      | ok entries =>
        obtain ⟨events, hload⟩ := load_of_held hp hl hh
        cases hload.symm.trans h
        rfl

namespace Action

variable {a : Action α}

theorem counted_of_ok {r : Answer α} (ha : a.Alters) (hm : m.registry.Counted)
    (h : a.call m = .ok r m') : m'.registry.Counted := by
  cases a with
  | build i => exact i.counted_of_ok hm h
  | solve =>
    obtain ⟨s, n, hsolve, h⟩ := bind_eq_ok_iff.1 h
    obtain ⟨-, rfl⟩ := pure_eq_ok_iff.1 h
    exact registry_of_solve hsolve ▸ hm
  | load path files =>
    obtain ⟨s, n, hload, h⟩ := bind_eq_ok_iff.1 h
    obtain ⟨-, rfl⟩ := pure_eq_ok_iff.1 h
    exact Registry.counted_of_anonymous_eq_zero (anonymous_of_load hload)
  | save path files => exact ha.elim
  | value v => exact ha.elim

theorem registry_after_of_not_alters (ha : ¬ a.Alters) (m : Model α β) :
    (a.after m).registry = m.registry := by
  obtain ⟨b, events, h⟩ := exists_after_of_not_alters ha m
  rw [h]

/-- A call that fails half-way may leave a number behind that no variable has got. The model is
poisoned then. -/
theorem counted_after (a : Action α) (hm : m.poisoned = false → m.registry.Counted)
    (hused : (a.after m).poisoned = false) : (a.after m).registry.Counted := by
  cases hp : m.poisoned with
  | true =>
    rw [after_of_error (a.call_of_poisoned hp), hp] at hused
    cases hused
  | false =>
    by_cases ha : a.Alters
    -- a refusal has poisoned the model, and any other failure has left it as it was
    · rcases (a.guarded ha m).cases with ⟨r, m', hc, -⟩ | ⟨e, m', hc, -, hrefused⟩ | ⟨e, hc, -⟩
      · rw [after_of_ok hc]
        exact counted_of_ok ha (hm hp) hc
      · rw [after_of_error hc, hrefused] at hused
        cases hused
      · rw [after_of_error hc]
        exact hm hp
    · rw [registry_after_of_not_alters ha]
      exact hm hp

end Action

theorem Model.counted_after (h : m.poisoned = false → m.registry.Counted) (as : List (Action α))
    (hused : (m.after as).poisoned = false) : (m.after as).registry.Counted := by
  induction as generalizing m with
  | nil => exact h hused
  | cons a as ih => exact ih (a.counted_after h) hused

theorem Draft.info_of_execute {p : Draft α} {v : Variable} (h : p.execute m = .ok v m') :
    m'.info v = .ok p.info := by
  obtain ⟨rfl, hm⟩ := registry_of_execute h
  refine Registry.info_eq_ok_iff.2 ⟨Registry.resolve_eq_ok_iff.2 ?_, ?_⟩
  all_goals
    simp [hm, register, Registry.insert, Model.newHandle, Registry.handle, Registry.nextColumn,
      ColumnId.ofOffset, ColumnId.offset]

theorem Origin.generated_of_call {o : Origin α} {d : Domain} {v : Variable} (ho : o.name? = none)
    (h : o.call d m = .ok v m') :
    ∃ i, m'.info v = .ok i ∧ i.name = Registry.generatedName m.registry.nextAnonymous := by
  let Generated (p : Draft α) : Prop :=
    p.info.name = Registry.generatedName m.registry.nextAnonymous
  have hdraft : Yields Generated (o.draft m.registry d) :=
    Origin.yields_of_forms (fun _ _ _ _ hnamed => nomatch ho.symm.trans hnamed)
      fun _ _ _ _ _ => rfl
  rw [origin_eq] at h
  cases hp : (do m.buildable; o.draft m.registry d) with
  | error e =>
    rw [hp] at h
    cases h
  | ok p =>
    rw [hp] at h
    exact ⟨p.info, Draft.info_of_execute h, Yields.after (fun _ => hdraft) p hp⟩

/-- In a model that a session has left usable, all names up to the counter are taken. The search for
a name ends at the least number whose name is free, and the name is what it finds. -/
theorem Model.generated_names_least (id : ModelId) (b : β) (events : List Event)
    (as : List (Action α)) :
    let m := (Model.new id b events).after as
    m.poisoned = false →
      (∀ j, 0 < j → j ≤ m.registry.anonymous → Registry.generatedName j ∈ m.registry.names) ∧
        ∃ k, IsLeast m.registry.freeNumbers k ∧
          (∀ n, m.registry.Finds m.registry.anonymous n ↔ n = k) ∧
          freshName m = .ok (Registry.generatedName k)
            { m with registry := { m.registry with anonymous := k } } ∧
          ∀ (o : Origin α) (d : Domain) (v : Variable) (m' : Model α β), o.name? = none →
            o.call d m = .ok v m' →
            ∃ i, m'.info v = .ok i ∧ i.name = Registry.generatedName k := by
  intro m hused
  have hnew : (Model.new id b events : Model α β).registry.Counted :=
    Registry.counted_of_anonymous_eq_zero rfl
  have hm : m.registry.Counted := Model.counted_after (fun _ => hnew) as hused
  refine ⟨fun j hpos hj => Registry.isTaken_iff.1 (hm j hpos hj), m.registry.nextAnonymous,
    hm.isLeast, fun _ => Registry.finds_iff, rfl, fun o d v m' ho h => ?_⟩
  exact o.generated_of_call ho h

end Calls

/-- A backend whose file holds two columns with names that might have been generated. -/
def holding : Recording Rat :=
  { loads := some { columns := [Column.continuous "_t1", Column.continuous "_t3"] } }

/-- A name that looks generated, the same name again, a file, and a handle from before it. -/
def aroundFile : List (Action Rat) :=
  [.build (.make (.create "_t2") .anyReal), .build (.make .createAnonymous .anyReal),
    .build (.make (.create "_t2") .anyReal), .build (.make .createAnonymous .anyReal),
    .load "x.json" {}, .build (.make .createAnonymous .anyReal),
    .build (.make (.negate ⟨⟨0⟩, 0, ⟨1⟩⟩) .anyReal)]

theorem Model.generated_names_least_aroundFile :
    let m := (Model.new ⟨0⟩ holding []).after aroundFile
    m.poisoned = false ∧ m.registry.names = ["_t1", "_t3", "_t2"] ∧ m.registry.anonymous = 2 ∧
      IsLeast m.registry.freeNumbers 4 := by
  intro m
  have hused : m.poisoned = false := by decide +kernel
  obtain ⟨-, k, hleast, hfinds, -⟩ := Model.generated_names_least ⟨0⟩ holding [] aroundFile hused
  have hnext : m.registry.nextAnonymous = 4 := by decide +kernel
  obtain rfl : k = 4 := (Registry.finds_iff.1 ((hfinds k).2 rfl)).trans hnext
  exact ⟨hused, by decide +kernel, by decide +kernel, hleast⟩

end LinearProgram
