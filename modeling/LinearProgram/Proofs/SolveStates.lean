import LinearProgram.Proofs.Bookkeeping
import LinearProgram.Solver.Choose

/-! What the state of a model says of the solution that its backend holds: there is none until the
model is solved, and then it is what the solver has found for the program there is. -/

namespace LinearProgram

section Engines

open Engine

theorem Engine.length_shiftFrom (n : Nat) (rs : List (Range Rat)) :
    (shiftFrom n rs).length = rs.length := by
  induction rs generalizing n with
  | nil => rfl
  | cons r rs ih =>
    rw [shiftFrom]
    split <;> rw [List.length_cons, ih, List.length_cons]

namespace Engine.Program

variable {p : Program Rat} {point : List Rat}

theorem length_of_relax (h : p.relax = .optimal point) : point.length = p.ranges.length := by
  unfold relax at h
  dsimp only at h
  split at h
  · cases h
  · split at h
    · cases h
    · cases h
      rw [List.length_map, length_shiftFrom]

theorem length_of_search {fuel : Nat} {best : Option (List Rat)}
    (hbest : ∀ q ∈ best, q.length = p.ranges.length) :
    ∀ q ∈ search fuel p best, q.length = p.ranges.length := by
  induction fuel generalizing p best with
  | zero => exact hbest
  | succ fuel ih =>
    rw [search]
    cases hr : p.relax with
    | infeasible => exact hbest
    | unbounded => exact hbest
    | optimal point =>
      dsimp only
      by_cases hb : p.isBetter point best = true
      · rw [if_neg (by simp [hb])]
        cases p.fractional? point with
        | none =>
          intro q hq
          obtain rfl := Option.some.inj hq
          exact length_of_relax hr
        | some e =>
          have hbelow : (p.below e.1 e.2).ranges.length = p.ranges.length := List.length_modify ..
          have habove : (p.above e.1 e.2).ranges.length = p.ranges.length := List.length_modify ..
          have hfirst : ∀ q ∈ search fuel (p.below e.1 e.2) best, q.length = p.ranges.length := by
            rw [← hbelow] at hbest ⊢
            exact ih hbest
          rw [← habove] at hfirst ⊢
          exact ih hfirst
      · rw [if_pos (by simpa using hb)]
        exact hbest

theorem length_of_solve (h : p.solve = .optimal point) : point.length = p.ranges.length := by
  unfold solve at h
  cases hr : p.relax with
  | infeasible => simp [hr] at h
  | unbounded => simp [hr] at h
  | optimal relaxed =>
    simp only [hr] at h
    cases hs : search p.branches p none with
    | none => simp [hs] at h
    | some q =>
      simp only [hs] at h
      cases h
      have hnone : ∀ q ∈ (none : Option (List Rat)), q.length = p.ranges.length := by simp
      exact length_of_search hnone _ hs

end Engine.Program

theorem Engine.length_of_exact {p : Program Float} {q : Program Rat} (h : p.exact = .ok q) :
    q.ranges.length = p.ranges.length := by
  unfold Program.exact at h
  cases hranges : p.ranges.mapM Range.exact with
  | error e => simp [hranges, bind, Except.bind] at h
  | ok ranges =>
    cases hrows : p.rows.mapM Row.exact with
    | error e => simp [hranges, hrows, bind, Except.bind] at h
    | ok rows =>
      simp only [hranges, hrows, bind, Except.bind] at h
      cases h
      exact length_of_mapM hranges

/-- The engine gives a value for each variable. -/
theorem Engine.length_of_run {p : Program Float} {values : List Float}
    (h : run p = .optimal values) : values.length = p.ranges.length := by
  unfold run at h
  cases he : p.exact with
  | error r => cases r <;> simp [he] at h
  | ok q =>
    simp only [he] at h
    cases hs : q.solve with
    | infeasible => simp [hs] at h
    | unbounded => simp [hs] at h
    | optimal point =>
      simp only [hs] at h
      cases h
      rw [List.length_map, Program.length_of_solve hs, length_of_exact he]

end Engines

section Sessions

variable {α : Type} {service : SolverService α} {m m' : Model α (ServiceBackend α)}

/-- The solution is what the service finds for the program that the backend holds now. -/
structure Model.Accounted (service : SolverService α) (m : Model α (ServiceBackend α)) : Prop where
  served : m.backend.service = service
  unsolved : m.state = .unsolved → m.backend.solution = none
  solving : m.state = .solving → m.poisoned = true
  solved : ∀ t, m.state = .solved t → ∃ s reported, m.backend.solution = some s ∧
    service.solve m.backend.problem = .ok (s, reported) ∧ s.status.shared = t

namespace Model.Accounted

theorem of_unsolved (hs : m.backend.service = service) (hu : m.state = .unsolved)
    (hn : m.backend.solution = none) : m.Accounted service where
  served := hs
  unsolved _ := hn
  solving h := by simp [hu] at h
  solved t h := by simp [hu] at h

theorem fresh (id : ModelId) (service : SolverService α) (config : Config α)
    (events : List Event) : (Model.fresh id service config events).Accounted service :=
  .of_unsolved rfl rfl rfl

variable [Scalar α]

theorem outcome (h : m.Accounted service) (ho : m.Open) (p : Plan α) :
    (p.outcome m).Accounted service := by
  have hn := h.unsolved ho.2
  cases p with
  | column p =>
    rw [Plan.outcome]
    cases p.row with
    | none => exact .of_unsolved h.served ho.2 hn
    | some t => exact .of_unsolved h.served ho.2 hn
  | relation a b sense => exact .of_unsolved h.served ho.2 hn
  | objective row => exact .of_unsolved h.served ho.2 hn

end Model.Accounted

variable [Scalar α] [Codec α] {a : Action α} {r : Except (ModelError α) (Answer α)}

theorem Model.Moves.accounted (hm : m.Moves a r m') (h : m.Accounted service) :
    m'.Accounted service := by
  cases hm with
  | turnedAway | unsaved | asked => exact h
  | built isOpen => exact h.outcome isOpen _
  | stranded isOpen => exact .of_unsolved h.served isOpen.2 (h.unsolved isOpen.2)
  | @solved s reported events isOpen solution =>
    obtain ⟨s', reported', hs, -, hb⟩ := ServiceBackend.exists_of_solve solution
    obtain rfl : s = s' := Option.some.inj (congrArg ServiceBackend.solution hb)
    rw [h.served] at hs
    exact {
      served := h.served
      unsolved := nofun
      solving := nofun
      solved := by
        rintro t ⟨⟩
        exact ⟨s, reported', rfl, hs, rfl⟩ }
  | unsolved isOpen => exact ⟨h.served, nofun, fun _ => rfl, nofun⟩
  | saved => exact ⟨h.served, h.unsolved, h.solving, h.solved⟩
  | loaded => exact .of_unsolved h.served rfl rfl
  | unloaded => exact ⟨h.served, h.unsolved, fun _ => rfl, h.solved⟩

variable [ZeroIsNumber α]

theorem Model.Accounted.after (h : m.Accounted service) (hb : m.Balanced)
    (as : List (Action α)) : (m.after as).Accounted service := by
  induction as generalizing m with
  | nil => exact h
  | cons a as ih =>
    have hm := moves hb.inStep a
    exact ih (hm.accounted h) (hm.balanced hb)

end Sessions

section Values

variable {α : Type} [Scalar α] [Codec α] {m : Model α (ServiceBackend α)} {v : Variable}

theorem Model.value_of_unsolved (hp : m.poisoned = false) (hs : m.state = .unsolved)
    (v : Variable) : m.value v = .error .notSolved := by
  simp [value, usable, status, hp, hs, bind, Except.bind, throw, throwThe, MonadExceptOf.throw]

theorem Model.value_of_solved (hp : m.poisoned = false) {t : Status} (hs : m.state = .solved t)
    {c : ColumnId} (hv : m.registry.resolve v = .ok c) {s : Solution α}
    (hsolution : m.backend.solution = some s) :
    m.value v = s.values[c.offset]?.elim (.error (.solutionUnavailable c)) .ok := by
  have hvalues : Backend.values m.backend = .ok s.values := by
    simp [Backend.values, hsolution]
  cases hx : s.values[c.offset]? with
  | none =>
    simp [value, usable, status, hp, hs, hv, hvalues, hx, bind, Except.bind, throw, throwThe,
      MonadExceptOf.throw]
  | some x =>
    simp [value, usable, status, hp, hs, hv, hvalues, hx, bind, Except.bind, pure, Except.pure]

theorem Model.unsolved_of_load {path : String} {files : Files} {n : Model α (ServiceBackend α)}
    {r : Answer α} (h : (Action.load path files).call m = .ok r n) :
    n.poisoned = false ∧ n.state = .unsolved ∧ n.backend.solution = none := by
  have hm := m.moves_load path files
  rw [Action.answer_of_ok h, Action.after_of_ok h] at hm
  cases hm with
  | loaded usable file => exact ⟨usable, rfl, rfl⟩

end Values

/-- The engine gives a value for each variable of the program, if any. -/
def Engine.GivesAll (engine : Engine.Program Float → Engine.Outcome) : Prop :=
  ∀ p values, engine p = .optimal values → values.length = p.ranges.length

variable {name : String} {engine : Engine.Program Float → Engine.Outcome} {p : Problem Float}
  {s : Solution Float} {reported : List Event}

theorem Problem.exists_of_engineService
    (h : (engineService name engine).solve p = .ok (s, reported)) :
    ∃ events, p.solution name (engine p.program) = (s, events) := by
  cases hv : p.validate with
  | error e => simp [engineService, hv, bind, Except.bind] at h
  | ok u =>
    simp only [engineService, hv, bind, Except.bind] at h
    cases h
    exact ⟨_, rfl⟩

/-- Only an optimal outcome has values. -/
theorem Problem.values_of_engineService (hengine : Engine.GivesAll engine)
    (h : (engineService name engine).solve p = .ok (s, reported)) :
    (s.status.shared = .optimal → s.values.length = p.columns.length ∧
        s.optimalValue = some (p.objectiveValue s.values)) ∧
      (s.status.shared ≠ .optimal → s.values = [] ∧ s.optimalValue = none) := by
  obtain ⟨events, h⟩ := exists_of_engineService h
  cases ho : engine p.program with
  | optimal values =>
    rw [ho] at h
    cases h
    have hlength : values.length = p.program.ranges.length := hengine _ _ ho
    refine ⟨fun _ => ⟨?_, rfl⟩, fun hne => (hne rfl).elim⟩
    rw [hlength, program, List.length_map]
  | infeasible | unbounded | failed =>
    rw [ho] at h
    cases h
    exact ⟨nofun, fun _ => ⟨rfl, rfl⟩⟩

namespace Model.Accounted

variable [Json.NumberReader] {m : Model Float (ServiceBackend Float)}
  (h : m.Accounted (engineService name engine)) (hengine : Engine.GivesAll engine) (hp : m.poisoned = false)
include h hengine hp

theorem values_of_optimal (hb : m.Balanced) (hs : m.state = .solved .optimal) :
    ∃ s, m.backend.solution = some s ∧ s.values.length = m.columns ∧
      s.optimalValue = some (m.backend.problem.objectiveValue s.values) ∧
      ∀ v c, m.registry.resolve v = .ok c →
        ∃ x, s.values[c.number - 1]? = some x ∧ m.value v = .ok x := by
  obtain ⟨s, reported, hsolution, hfound, hstatus⟩ := h.solved _ hs
  obtain ⟨hlength, hoptimal⟩ := (Problem.values_of_engineService hengine hfound).1 hstatus
  rw [← hb.columns] at hlength
  refine ⟨s, hsolution, hlength, hoptimal, fun v c hv => ?_⟩
  have hlt : c.offset < s.values.length := by
    rw [hlength, ← hb.entries hp]
    exact (Registry.resolve_eq_ok_iff.1 hv).2.2.2.2
  have hx : s.values[c.offset]? = some s.values[c.offset] := List.getElem?_eq_getElem hlt
  refine ⟨s.values[c.offset], hx, ?_⟩
  rw [value_of_solved hp hs hv hsolution, hx]
  rfl

theorem unavailable_of_not_optimal {t : Status} (hs : m.state = .solved t) (ht : t ≠ .optimal) :
    ∃ s, m.backend.solution = some s ∧ s.optimalValue = none ∧
      ∀ v c, m.registry.resolve v = .ok c → m.value v = .error (.solutionUnavailable c) := by
  obtain ⟨s, reported, hsolution, hfound, hstatus⟩ := h.solved _ hs
  obtain ⟨hvalues, hoptimal⟩ :=
    (Problem.values_of_engineService hengine hfound).2 (hstatus ▸ ht)
  refine ⟨s, hsolution, hoptimal, fun v c hv => ?_⟩
  rw [value_of_solved hp hs hv hsolution, hvalues]
  rfl

end Model.Accounted

/-- In every session the state tells what the backend holds. A model that is not poisoned gives the
values that the solver found for the program there is, one for each column, if it found them
optimal, and otherwise gives none. After a load it gives none until it is solved again. -/
theorem Model.state_accounts_for_solution [Json.NumberReader] (hengine : Engine.GivesAll engine)
    (name : String) (id : ModelId) (config : Config Float) (events : List Event)
    (as : List (Action Float)) :
    let m := (Model.fresh id (engineService name engine) config events).after as
    (m.state = .unsolved → m.backend.solution = none) ∧
      (m.state = .solving → m.poisoned = true) ∧
      (∀ t, m.state = .solved t → ∃ s reported, m.backend.solution = some s ∧
        s.status.shared = t ∧
        (engineService name engine).solve m.backend.problem = .ok (s, reported)) ∧
      (m.poisoned = false →
        (m.state = .unsolved → ∀ v, m.value v = .error .notSolved) ∧
        (m.state = .solved .optimal → ∃ s, m.backend.solution = some s ∧
          s.values.length = m.columns ∧
          s.optimalValue = some (m.backend.problem.objectiveValue s.values) ∧
          ∀ v c, m.registry.resolve v = .ok c →
            ∃ x, s.values[c.number - 1]? = some x ∧ m.value v = .ok x) ∧
        ∀ t, m.state = .solved t → t ≠ .optimal → ∃ s, m.backend.solution = some s ∧
          s.optimalValue = none ∧
          ∀ v c, m.registry.resolve v = .ok c → m.value v = .error (.solutionUnavailable c)) ∧
      ∀ path files r n, (Action.load path files).call m = .ok r n →
        n.state = .unsolved ∧ n.backend.solution = none ∧ ∀ v, n.value v = .error .notSolved := by
  intro m
  have hbalanced : m.Balanced := (InStep.fresh id _ config events).balanced.after as
  have h : m.Accounted (engineService name engine) :=
    (Accounted.fresh id _ config events).after (InStep.fresh id _ config events).balanced as
  refine ⟨h.unsolved, h.solving, fun t ht => ?_, fun hp => ⟨value_of_unsolved hp, ?_, ?_⟩,
    fun path files r n hload => ?_⟩
  · obtain ⟨s, reported, hs, hfound, hstatus⟩ := h.solved t ht
    exact ⟨s, reported, hs, hstatus, hfound⟩
  · exact h.values_of_optimal hengine hp hbalanced
  · exact fun t => h.unavailable_of_not_optimal hengine hp
  · obtain ⟨hp, hu, hn⟩ := unsolved_of_load hload
    exact ⟨hu, hn, value_of_unsolved hp hu⟩

/-- A variable that may be at most what a second one is fixed at. -/
def ceiling : List (Action Float) :=
  let x : Variable := ⟨⟨0⟩, 0, ⟨1⟩⟩
  [.build (.make (.create "x") .nonNegativeReal),
    .build (.make (.namedConstant "two" (1 + 1)) .nonNegativeReal),
    .build (.relate x ⟨⟨0⟩, 0, ⟨2⟩⟩ .lessEqual), .build (.maximize x), .solve]

def unlimited : List (Action Float) :=
  [.build (.make (.create "x") .nonNegativeReal), .build (.maximize ⟨⟨0⟩, 0, ⟨1⟩⟩), .solve]

theorem Model.state_accounts_for_solution_ceiling :
    let start := Model.fresh ⟨0⟩ (engineService "microlp" Engine.run) {} []
    let x : Variable := ⟨⟨0⟩, 0, ⟨1⟩⟩
    Engine.GivesAll Engine.run ∧
      (∃ s, (start.after ceiling).backend.solution = some s ∧ s.values.length = 2 ∧
        ∃ y, s.values[0]? = some y ∧ (start.after ceiling).value x = .ok y) ∧
      (start.after unlimited).value x = .error (.solutionUnavailable ⟨1⟩) ∧
      start.value x = .error .notSolved := by
  intro start x
  have hengine : Engine.GivesAll Engine.run := fun _ _ => Engine.length_of_run
  obtain ⟨-, -, -, hceiling, -⟩ :=
    state_accounts_for_solution hengine "microlp" ⟨0⟩ {} [] ceiling
  obtain ⟨-, -, -, hunlimited, -⟩ :=
    state_accounts_for_solution hengine "microlp" ⟨0⟩ {} [] unlimited
  obtain ⟨-, -, -, hfresh, -⟩ := state_accounts_for_solution hengine "microlp" ⟨0⟩ {} [] []
  have hstart : Model.fresh ⟨0⟩ (engineService "microlp" Engine.run) {} [] = start := rfl
  rw [hstart] at hceiling hunlimited
  have hp : (start.after ceiling).poisoned = false := by decide +kernel
  have hs : (start.after ceiling).state = .solved .optimal := by decide +kernel
  have hc : (start.after ceiling).columns = 2 := by decide +kernel
  have hx : (start.after ceiling).registry.resolve x = .ok ⟨1⟩ :=
    Registry.resolve_eq_ok_iff.2 (by decide +kernel)
  have hp' : (start.after unlimited).poisoned = false := by decide +kernel
  have hs' : (start.after unlimited).state = .solved .unbounded := by decide +kernel
  have hx' : (start.after unlimited).registry.resolve x = .ok ⟨1⟩ :=
    Registry.resolve_eq_ok_iff.2 (by decide +kernel)
  obtain ⟨s, hheld, hlength, -, hvalues⟩ := (hceiling hp).2.1 hs
  obtain ⟨-, -, -, hnone⟩ := (hunlimited hp').2.2 _ hs' (by decide)
  exact ⟨hengine, ⟨s, hheld, hlength.trans hc, hvalues x ⟨1⟩ hx⟩, hnone x ⟨1⟩ hx',
    (hfresh rfl).1 rfl x⟩

end LinearProgram
