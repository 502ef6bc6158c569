import LinearProgram.Proofs.SaveLoad

/-! What the buffering backend refuses. Each of its requests is taken apart here into the checks and
the writes that it makes, in their order: no check comes after a write, and no write can fail. -/

namespace LinearProgram

namespace Request

variable {β γ δ : Type} {r : Request β γ} {f : γ → Request β δ} {b b' : β} {e : BackendError}
  {reason reason' : Option BackendError}

/-- Refuses where the condition does not hold. -/
def demand (c : Prop) [Decidable c] (e : BackendError) : Request β Unit :=
  if c then pure () else throw e

/-- Leaves the state alone, whatever comes out. -/
def Looks (r : Request β γ) : Prop :=
  ∀ b, (∃ a, r b = .ok a b) ∨ ∃ e, r b = .error e b

def Succeeds (r : Request β γ) : Prop :=
  ∀ b, ∃ a b', r b = .ok a b'

/-- In this state the request is refused for the reason, if there is one, and then it leaves the
state as it is. -/
def Refuses (r : Request β γ) (b : β) (reason : Option BackendError) : Prop :=
  ∀ e b', r b = .error e b' ↔ reason = some e ∧ b' = b

theorem bind_of_ok {a : γ} (h : r b = .ok a b') : (r >>= f) b = f a b' := by
  show EStateM.bind r f b = _
  rw [EStateM.bind, h]

theorem bind_of_error (h : r b = .error e b') : (r >>= f) b = .error e b' := by
  show EStateM.bind r f b = _
  rw [EStateM.bind, h]

theorem demand_of_pos {c : Prop} [Decidable c] (h : c) (b : β) : demand c e b = .ok () b := by
  rw [demand, if_pos h]
  rfl

theorem demand_of_neg {c : Prop} [Decidable c] (h : ¬ c) (b : β) : demand c e b = .error e b := by
  rw [demand, if_neg h]
  rfl

theorem looks_demand (c : Prop) [Decidable c] (e : BackendError) :
    Looks (demand c e : Request β Unit) := by
  intro b
  by_cases h : c
  · exact .inl ⟨(), demand_of_pos h b⟩
  · exact .inr ⟨e, demand_of_neg h b⟩

theorem looks_pure (a : γ) : Looks (pure a : Request β γ) :=
  fun _ => .inl ⟨a, rfl⟩

theorem looks_get : Looks (get : Request β β) :=
  fun b => .inl ⟨b, rfl⟩

theorem Looks.bind (h : r.Looks) (hf : ∀ a, (f a).Looks) : (r >>= f).Looks := by
  intro b
  rcases h b with ⟨a, ha⟩ | ⟨e, he⟩
  · rw [bind_of_ok ha]
    exact hf a b
  · exact .inr ⟨e, bind_of_error he⟩

theorem Looks.mapM {g : γ → Request β δ} (h : ∀ a, (g a).Looks) (l : List γ) :
    (l.mapM g).Looks := by
  induction l with
  | nil => exact looks_pure []
  | cons a l ih =>
    rw [List.mapM_cons]
    exact (h a).bind fun d => ih.bind fun ds => looks_pure (d :: ds)

theorem succeeds_pure (a : γ) : Succeeds (pure a : Request β γ) :=
  fun b => ⟨a, b, rfl⟩

theorem succeeds_modify (g : β → β) : Succeeds (modify g : Request β Unit) :=
  fun b => ⟨(), g b, rfl⟩

theorem Succeeds.bind (h : r.Succeeds) (hf : ∀ a, (f a).Succeeds) : (r >>= f).Succeeds := by
  intro b
  obtain ⟨a, b', ha⟩ := h b
  rw [bind_of_ok ha]
  exact hf a b'

theorem Succeeds.refuses (h : r.Succeeds) (b : β) : r.Refuses b none := by
  intro e b'
  obtain ⟨a, b'', ha⟩ := h b
  simp [ha]

theorem refuses_get_bind {f : β → Request β γ} (h : (f b).Refuses b reason) :
    (get >>= f).Refuses b reason :=
  h

theorem refuses_of_error (h : r b = .error e b) : r.Refuses b (some e) := by
  intro e' b'
  simp [h, eq_comm]

theorem refuses_demand (c : Prop) [Decidable c] (e : BackendError) (b : β) :
    (demand c e).Refuses b (if c then none else some e) := by
  by_cases h : c
  · rw [if_pos h]
    intro e' b'
    simp [demand_of_pos h b]
  · rw [if_neg h]
    exact refuses_of_error (demand_of_neg h b)

/-- Where the first part passes its checks, it has not written anything yet. -/
theorem Looks.refuses_bind (hl : r.Looks) (h : r.Refuses b reason)
    (hf : ∀ a, (f a).Refuses b reason') : (r >>= f).Refuses b (reason <|> reason') := by
  rcases hl b with ⟨a, ha⟩ | ⟨e, he⟩
  · cases reason with
    | none =>
      intro e b'
      rw [bind_of_ok ha]
      exact hf a e b'
    | some e =>
      have herror := (h e b).2 ⟨rfl, rfl⟩
      rw [ha] at herror
      cases herror
  · obtain rfl : reason = some e := ((h e b).1 he).1
    exact refuses_of_error (bind_of_error he)

theorem Looks.refuses_mapM {g : γ → Request β δ} (hl : ∀ a, (g a).Looks)
    {why : γ → Option BackendError} (h : ∀ a, (g a).Refuses b (why a)) (l : List γ) :
    (l.mapM g).Refuses b (l.findSome? why) := by
  induction l with
  | nil => exact (succeeds_pure []).refuses b
  | cons a l ih =>
    have htail (d : δ) : Refuses (l.mapM g >>= fun ds => pure (d :: ds)) b (l.findSome? why) := by
      have := (Looks.mapM hl l).refuses_bind ih fun ds => (succeeds_pure (d :: ds)).refuses b
      simpa using this
    rw [List.mapM_cons, List.findSome?_cons]
    have hall := (hl a).refuses_bind (h a) htail
    cases hw : why a <;> rwa [hw] at hall

end Request

namespace ServiceBackend

variable {α γ : Type}

/-- Why nothing can be done about the column, if it is not there. -/
def missing? (b : ServiceBackend α) (c : ColumnId) : Option BackendError :=
  if b.hasColumn c then none else some (.unknownColumn c)

/-- Why the directive is refused, if it is. Arguments are checked before columns are looked up, and
of several columns that are missing the first one is named. -/
def refusal? [Scalar α] (b : ServiceBackend α) : Directive α → Option BackendError
  | .addColumn => none
  | .setColumnName c name =>
    (if name ≠ "" then none else some (.rejected (.emptyName c))) <|> b.missing? c
  | .setInteger c _ | .setBinary c => b.missing? c
  | .setBounds c lower upper =>
    (if boundsConsistent lower upper then none
      else some (.rejected (.invalidBounds (lowerText lower) (upperText upper) c))) <|> b.missing? c
  | .addRow terms _ _ | .setObjective terms => terms.findSome? fun t => b.missing? t.1

def solveRefusal? (b : ServiceBackend α) : Option BackendError :=
  (if (b.problem.isMixedInteger && !b.service.supportsInteger) = false then none
    else some (.rejected (.integerColumns b.service.name))) <|>
    match b.service.solve b.problem with
    | .ok _ => none
    | .error e => some (.solver e)

/-- Why there is no program to be had from the file. -/
def loadRefusal? (α : Type) [Codec α] (path : String) (files : Files) : Option BackendError :=
  match files.readText? path with
  | none => some .io
  | some text =>
    match (Codec.decode (Format.ofPath path) text : Except BackendError (Problem α)) with
    | .ok _ => none
    | .error e => some e

namespace Stepwise

open Request

/-- The place of a column that is there. -/
def locate (c : ColumnId) : Request (ServiceBackend α) Nat := do
  demand (c.number ≠ 0) (.unknownColumn c)
  let b ← get
  demand (c.offset < b.problem.columns.length) (.unknownColumn c)
  return c.offset

def offsetOf (t : Term α) : Request (ServiceBackend α) (Nat × α) := do
  let i ← locate t.1
  return (i, t.2)

def write (i : Nat) (f : Column α → Column α) : Request (ServiceBackend α) Unit :=
  modify fun b => { b with problem := { b.problem with columns := b.problem.columns.modify i f } }

def send [Scalar α] : Directive α → Request (ServiceBackend α) Unit
  | .addColumn => modify ServiceBackend.addColumn
  | .setColumnName c name => do
    demand (name ≠ "") (.rejected (.emptyName c))
    let i ← locate c
    write i fun col => { col with name }
  | .setInteger c integer => do
    let i ← locate c
    write i fun col => { col with type := if integer then .integer else .continuous }
  | .setBinary c => do
    let i ← locate c
    write i fun col => { col with type := .binary }
    write i fun col => col.withBounds (some 0) (some 1)
  | .setBounds c lower upper => do
    demand (boundsConsistent lower upper)
      (.rejected (.invalidBounds (lowerText lower) (upperText upper) c))
    let i ← locate c
    write i fun col => col.withBounds lower upper
  | .addRow terms sense bound => do
    let ts ← terms.mapM offsetOf
    modify fun b => b.addConstraint sense ts bound
  | .setObjective terms => do
    let ts ← terms.mapM offsetOf
    modify fun b => b.setObjectiveTerms ts

def solve : Request (ServiceBackend α) (SolverStatus × List Event) := do
  let b ← get
  demand ((b.problem.isMixedInteger && !b.service.supportsInteger) = false)
    (.rejected (.integerColumns b.service.name))
  match b.service.solve b.problem with
  | .error e => throw (.solver e)
  | .ok (s, events) =>
    modify fun b => { b with solution := some s }
    return (s.status, events)

/-- The program is replaced with its configuration, which is then put back. -/
def load [Codec α] (path : String) (files : Files) :
    Request (ServiceBackend α) (List Event) := do
  let b ← get
  match files.readText? path with
  | none => throw .io
  | some text =>
    match Codec.decode (Format.ofPath path) text with
    | .error e => throw e
    | .ok (p : Problem α) =>
      modify fun b => { b with problem := p }
      modify fun c => { c with problem := { c.problem with config := b.problem.config } }
      modify fun b => { b with solution := none }
      return [.loadedFile path p.columns.length p.constraints.length]

section Columns

variable {b : ServiceBackend α} {c : ColumnId}

theorem looks_locate (c : ColumnId) : Looks (locate c : Request (ServiceBackend α) Nat) :=
  (looks_demand _ _).bind fun _ => looks_get.bind fun _ =>
    (looks_demand _ _).bind fun _ => looks_pure c.offset

theorem locate_of_hasColumn (h : b.hasColumn c = true) : locate c b = .ok c.offset b := by
  obtain ⟨hn, hl⟩ := hasColumn_iff.1 h
  rw [locate, bind_of_ok (demand_of_pos hn b)]
  exact bind_of_ok (demand_of_pos hl b)

theorem locate_of_not_hasColumn (h : b.hasColumn c = false) :
    locate c b = .error (.unknownColumn c) b := by
  by_cases hn : c.number ≠ 0
  · have hl : ¬ c.offset < b.problem.columns.length := fun hl => by
      rw [hasColumn_iff.2 ⟨hn, hl⟩] at h
      cases h
    rw [locate, bind_of_ok (demand_of_pos hn b)]
    show (demand _ _ >>= fun _ => pure c.offset : Request _ _) b = _
    exact bind_of_error (demand_of_neg hl b)
  · rw [locate, bind_of_error (demand_of_neg hn b)]

theorem refuses_locate (c : ColumnId) : (locate c).Refuses b (b.missing? c) := by
  unfold missing?
  cases h : b.hasColumn c with
  | true =>
    intro e b'
    simp [locate_of_hasColumn h]
  | false => exact refuses_of_error (locate_of_not_hasColumn h)

theorem looks_offsetOf (t : Term α) : Looks (offsetOf t) :=
  (looks_locate t.1).bind fun i => looks_pure (i, t.2)

theorem refuses_locate_bind {f : Nat → Request (ServiceBackend α) γ} (hf : ∀ i, (f i).Succeeds) :
    (locate c >>= f).Refuses b (b.missing? c) := by
  have h := (looks_locate c).refuses_bind (refuses_locate c) fun i => (hf i).refuses b
  simpa using h

theorem refuses_offsets (terms : List (Term α)) {f : Terms α → Request (ServiceBackend α) γ}
    (hf : ∀ ts, (f ts).Succeeds) :
    (terms.mapM offsetOf >>= f).Refuses b (terms.findSome? fun t => b.missing? t.1) := by
  have hall : (terms.mapM offsetOf).Refuses b (terms.findSome? fun t => b.missing? t.1) :=
    Looks.refuses_mapM looks_offsetOf
      (fun t => refuses_locate_bind fun i => succeeds_pure (i, t.2)) terms
  have h := (Looks.mapM looks_offsetOf terms).refuses_bind hall fun ts => (hf ts).refuses b
  simpa using h

theorem succeeds_write (i : Nat) (f : Column α → Column α) : Succeeds (write i f) :=
  succeeds_modify _

end Columns

theorem refuses_send [Scalar α] (d : Directive α) (b : ServiceBackend α) :
    (send d).Refuses b (b.refusal? d) := by
  cases d with
  | addColumn => exact (succeeds_modify _).refuses b
  | setColumnName c name =>
    exact (looks_demand _ _).refuses_bind (refuses_demand _ _ b) fun _ =>
      refuses_locate_bind fun i => succeeds_write i _
  | setInteger c integer => exact refuses_locate_bind fun i => succeeds_write i _
  | setBinary c =>
    exact refuses_locate_bind fun i => (succeeds_write i _).bind fun _ => succeeds_write i _
  | setBounds c lower upper =>
    exact (looks_demand _ _).refuses_bind (refuses_demand _ _ b) fun _ =>
      refuses_locate_bind fun i => succeeds_write i _
  | addRow terms sense bound => exact refuses_offsets terms fun ts => succeeds_modify _
  | setObjective terms => exact refuses_offsets terms fun ts => succeeds_modify _

theorem refuses_solve (b : ServiceBackend α) : solve.Refuses b b.solveRefusal? := by
  refine refuses_get_bind ((looks_demand _ _).refuses_bind (refuses_demand _ _ b) fun _ => ?_)
  cases b.service.solve b.problem with
  | error e => exact refuses_of_error rfl
  | ok r =>
    exact ((succeeds_modify _).bind fun _ => succeeds_pure (r.1.status, r.2)).refuses b

theorem refuses_load [Codec α] (path : String) (files : Files) (b : ServiceBackend α) :
    (load path files).Refuses b (loadRefusal? α path files) := by
  refine refuses_get_bind ?_
  unfold loadRefusal?
  cases files.readText? path with
  | none => exact refuses_of_error rfl
  | some text =>
    simp only
    cases (Codec.decode (Format.ofPath path) text : Except BackendError (Problem α)) with
    | error e => exact refuses_of_error rfl
    | ok p =>
      exact ((succeeds_modify _).bind fun _ => (succeeds_modify _).bind fun _ =>
        (succeeds_modify _).bind fun _ => succeeds_pure _).refuses b

section Whole

variable {b : ServiceBackend α} {c : ColumnId}

theorem locate_bind_eq {g : Nat → Request (ServiceBackend α) Unit} {f : Column α → Column α}
    (h : g c.offset b = write c.offset f b) :
    (locate c >>= g) b = step (fun b => (b.modifyColumn c f).map fun b => ((), b)) b := by
  cases hc : b.hasColumn c with
  | true =>
    rw [bind_of_ok (locate_of_hasColumn hc), h]
    exact (step_of_ok (by simp [modifyColumn, hc, Except.map])).symm
  | false =>
    rw [bind_of_error (locate_of_not_hasColumn hc)]
    exact (step_of_error (by simp [modifyColumn, hc, Except.map])).symm

theorem write_write (i : Nat) (f g : Column α → Column α) (b : ServiceBackend α) :
    (write i f >>= fun _ => write i g) b = write i (g ∘ f) b := by
  have hcolumns := List.modify_modify_eq f g i b.problem.columns
  exact congrArg (fun columns => EStateM.Result.ok ()
    { b with problem := { b.problem with columns } }) hcolumns

theorem mapM_offsetOf (ts : List (Term α)) :
    ts.mapM offsetOf b = match b.offsets ts with
      | .ok us => .ok us b
      | .error e => .error e b := by
  induction ts with
  | nil => rfl
  | cons t ts ih =>
    obtain ⟨c, a⟩ := t
    rw [List.mapM_cons, offsets]
    cases hc : b.hasColumn c with
    | false => exact bind_of_error (bind_of_error (locate_of_not_hasColumn hc))
    | true =>
      have ht : offsetOf (c, a) b = .ok (c.offset, a) b := bind_of_ok (locate_of_hasColumn hc)
      rw [bind_of_ok ht]
      cases ho : b.offsets ts with
      | error e =>
        rw [ho] at ih
        exact bind_of_error ih
      | ok us =>
        rw [ho] at ih
        exact bind_of_ok ih

theorem offsets_bind_eq {ts : List (Term α)} {g : Terms α → ServiceBackend α → ServiceBackend α} :
    (ts.mapM offsetOf >>= fun us => modify (g us)) b =
      step (fun b => ((b.offsets ts).map fun us => g us b).map fun b => ((), b)) b := by
  have h := mapM_offsetOf (b := b) ts
  cases ho : b.offsets ts with
  | error e =>
    rw [ho] at h
    rw [bind_of_error h, step_of_error (by rw [ho]; rfl)]
  | ok us =>
    rw [ho] at h
    rw [bind_of_ok h, step_of_ok (by rw [ho]; rfl)]
    rfl

theorem demand_bind_eq {p : Prop} [Decidable p] {e : BackendError}
    {r : Request (ServiceBackend α) Unit}
    {f : ServiceBackend α → Except BackendError (ServiceBackend α)}
    (hp : p → r b = step (fun b => (f b).map fun b => ((), b)) b) :
    (demand p e >>= fun _ => r) b =
      step (fun b => (if p then f b else .error e).map fun b => ((), b)) b := by
  by_cases h : p
  · rw [bind_of_ok (demand_of_pos h b), hp h]
    simp [step, h]
  · rw [bind_of_error (demand_of_neg h b), step_of_error (by rw [if_neg h]; rfl)]

end Whole

/-- Check by check and write by write, it is what the backend does. -/
theorem send_eq [Scalar α] [Codec α] (d : Directive α) : send d = Backend.send d := by
  funext b
  cases d with
  | addColumn => rfl
  | setColumnName c name =>
    refine (demand_bind_eq fun _ => locate_bind_eq rfl).trans ?_
    simp only [ne_eq, ite_not]
    rfl
  | setInteger c integer => exact locate_bind_eq rfl
  | setBinary c => exact locate_bind_eq (write_write ..)
  | setBounds c lower upper => exact demand_bind_eq fun _ => locate_bind_eq rfl
  | addRow terms sense bound => exact offsets_bind_eq
  | setObjective terms => exact offsets_bind_eq

theorem solve_eq [Scalar α] [Codec α] : (solve : Request (ServiceBackend α) _) = Backend.solve := by
  funext b
  show (demand _ _ >>= _ : Request (ServiceBackend α) _) b = step ServiceBackend.solve b
  by_cases h : (b.problem.isMixedInteger && !b.service.supportsInteger) = false
  · rw [bind_of_ok (demand_of_pos h b)]
    simp only [step, ServiceBackend.solve, h]
    cases b.service.solve b.problem <;> rfl
  · rw [bind_of_error (demand_of_neg h b)]
    rw [Bool.not_eq_false] at h
    exact (step_of_error (by rw [ServiceBackend.solve, if_pos h])).symm

theorem load_eq [Scalar α] [Codec α] (path : String) (files : Files) :
    (load path files : Request (ServiceBackend α) _) = Backend.load path files := by
  funext b
  cases hr : files.readText? path with
  | none =>
    have hload : (Problem.load path files : Except _ (Problem α × List Event)) = .error .io := by
      rw [Problem.load, hr]
      rfl
    rw [load_of_error hload, load]
    simp only [hr]
    rfl
  | some text =>
    cases hd : (Codec.decode (Format.ofPath path) text : Except BackendError (Problem α)) with
    | error e =>
      have hload : (Problem.load path files : Except _ (Problem α × List Event)) = .error e := by
        rw [Problem.load_eq hr, hd]
        rfl
      rw [load_of_error hload, load]
      simp only [hr, hd]
      rfl
    | ok p =>
      rw [load_of_decode b hr hd, load]
      simp only [hr, hd]
      rfl

end Stepwise

theorem findSome?_missing {b : ServiceBackend α} {c : ColumnId} {a : α} {good : List (Term α)}
    (hgood : ∀ t ∈ good, b.hasColumn t.1 = true) (hc : b.hasColumn c = false)
    (later : List (Term α)) :
    (good ++ (c, a) :: later).findSome? (fun t => b.missing? t.1) = some (.unknownColumn c) := by
  have hnone : good.findSome? (fun t => b.missing? t.1) = none :=
    List.findSome?_eq_none_iff.2 fun t ht => by simp [missing?, hgood t ht]
  rw [List.findSome?_append, hnone]
  simp [missing?, hc]

/-- A directive, a solve or a load is refused exactly for the reasons given, and then the program
and the solution are what they were. In particular one column that is not there, at any place among
others that are, keeps a row or an objective out as a whole. -/
theorem refused_requests_leave_no_trace [Scalar α] [Codec α] (b : ServiceBackend α) :
    (∀ d : Directive α, Stepwise.send d = Backend.send d ∧
      ∀ e b', Stepwise.send d b = .error e b' ↔ b.refusal? d = some e ∧ b' = b) ∧
    ((Stepwise.solve : Request (ServiceBackend α) _) = Backend.solve ∧
      ∀ e b', Stepwise.solve b = .error e b' ↔ b.solveRefusal? = some e ∧ b' = b) ∧
    (∀ path files, (Stepwise.load path files : Request (ServiceBackend α) _) =
        Backend.load path files ∧
      ∀ e b', Stepwise.load path files b = .error e b' ↔
        loadRefusal? α path files = some e ∧ b' = b) ∧
    ∀ (good later : List (Term α)) (c : ColumnId) (a : α),
      (∀ t ∈ good, b.hasColumn t.1 = true) → b.hasColumn c = false →
      (∀ sense bound, Stepwise.send (.addRow (good ++ (c, a) :: later) sense bound) b =
        .error (.unknownColumn c) b) ∧
      Stepwise.send (.setObjective (good ++ (c, a) :: later)) b = .error (.unknownColumn c) b := by
  refine ⟨fun d => ⟨Stepwise.send_eq d, Stepwise.refuses_send d b⟩,
    ⟨Stepwise.solve_eq, Stepwise.refuses_solve b⟩,
    fun path files => ⟨Stepwise.load_eq path files, Stepwise.refuses_load path files b⟩,
    fun good later c a hgood hc => ?_⟩
  have hmissing := findSome?_missing (a := a) hgood hc later
  exact ⟨fun sense bound => (Stepwise.refuses_send (.addRow _ sense bound) b _ _).2 ⟨hmissing, rfl⟩,
    (Stepwise.refuses_send (.setObjective _) b _ _).2 ⟨hmissing, rfl⟩⟩

/-- A program with an objective over its only column. -/
def single : ServiceBackend Float where
  service := ({} : Script Float).service
  problem := { objective.terms := [(0, 3)], columns := [Column.continuous "x"] }

theorem refused_requests_leave_no_trace_single :
    let row : List (Term Float) := [(⟨1⟩, 1), (⟨0⟩, 1), (⟨1⟩, 2)]
    let goal : List (Term Float) := [(⟨1⟩, 1), (⟨2⟩, 1), (⟨0⟩, 1)]
    Stepwise.send (.addRow row .equal 0) single = .error (.unknownColumn ⟨0⟩) single ∧
      Stepwise.send (.setObjective goal) single = .error (.unknownColumn ⟨2⟩) single ∧
      Stepwise.load "x.json" { entries := [(["x.json"], .empty)] } single = .error .json single := by
  intro row goal
  obtain ⟨-, -, hload, hterms⟩ := refused_requests_leave_no_trace single
  have hgood : ∀ t ∈ [((⟨1⟩, 1) : Term Float)], single.hasColumn t.1 = true := by decide +kernel
  let files : Files := { entries := [(["x.json"], .empty)] }
  have hmalformed : loadRefusal? Float "x.json" files = some .json := by decide +kernel
  exact ⟨(hterms _ [(⟨1⟩, 2)] ⟨0⟩ 1 hgood rfl).1 .equal 0, (hterms _ [(⟨0⟩, 1)] ⟨2⟩ 1 hgood rfl).2,
    ((hload _ _).2 _ _).2 ⟨hmalformed, rfl⟩⟩

end ServiceBackend

end LinearProgram
