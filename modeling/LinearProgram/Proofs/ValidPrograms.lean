import LinearProgram.Proofs.BufferedCalls
import LinearProgram.Proofs.MpsNumbers

/-! Programs without defects. A backend that buffers checks each directive by itself, against the
program as it stands, and that is enough to keep the whole of it without defects. -/

namespace LinearProgram

section Valid

variable {α : Type} [Scalar α]

/-- Terms on the first `n` columns, with finite coefficients. -/
def Terms.Proper (n : Nat) (ts : Terms α) : Prop :=
  ∀ t ∈ ts, t.1 < n ∧ Scalar.isFinite t.2 = true

theorem Terms.Proper.mono {n k : Nat} {ts : Terms α} (h : Terms.Proper n ts) (hk : n ≤ k) :
    Terms.Proper k ts :=
  fun t ht => ⟨Nat.lt_of_lt_of_le (h t ht).1 hk, (h t ht).2⟩

structure Problem.Valid (p : Problem α) : Prop where
  objective : Terms.Proper p.columns.length p.objective.terms
  rows : ∀ c ∈ p.constraints, Terms.Proper p.columns.length c.terms ∧ Scalar.isNaN c.bound = false
  columns : ∀ c ∈ p.columns, boundsConsistent c.lower c.upper = true

theorem objectiveDefects_eq_nil_iff {n : Nat} {t : Nat × α} :
    objectiveDefects n t = [] ↔ t.1 < n ∧ Scalar.isFinite t.2 = true := by
  simp [objectiveDefects]

theorem termDefects_eq_nil_iff {n row : Nat} {t : Nat × α} :
    termDefects n row t = [] ↔ t.1 < n ∧ Scalar.isFinite t.2 = true := by
  simp [termDefects]

theorem termDefects_of_lt {n row : Nat} {t : Nat × α} (h : t.1 < n) :
    termDefects n row t = if Scalar.isFinite t.2 then [] else [.rowCoefficient row t.2] := by
  rw [termDefects, if_neg (Nat.not_le_of_lt h), List.nil_append]

theorem constraintDefects_eq_nil_iff {n row : Nat} {c : Constraint α} :
    constraintDefects n c row = [] ↔
      Terms.Proper n c.terms ∧ Scalar.isNaN c.bound = false := by
  simp [constraintDefects, termDefects_eq_nil_iff, Terms.Proper]

theorem columnDefects_eq_nil_iff {i : Nat} {c : Column α} :
    columnDefects c i = [] ↔ boundsConsistent c.lower c.upper = true := by
  simp [columnDefects]

theorem flatMap_zipIdx_eq_nil_iff {γ δ : Type} {f : γ → Nat → List δ} {P : γ → Prop}
    (h : ∀ a i, f a i = [] ↔ P a) {l : List γ} :
    (l.zipIdx.flatMap fun (a, i) => f a i) = [] ↔ ∀ a ∈ l, P a := by
  simp only [List.flatMap_eq_nil_iff, h]
  constructor
  · intro hz a ha
    obtain ⟨i, hi⟩ := List.mem_iff_getElem?.1 ha
    exact hz (a, i) (List.mem_zipIdx_iff_getElem?.2 hi)
  · rintro hl ⟨a, i⟩ hz
    exact hl a (List.mem_of_getElem? (List.mem_zipIdx_iff_getElem?.1 hz))

theorem Problem.validate_eq_ok_iff_valid {p : Problem α} : p.validate = .ok () ↔ p.Valid := by
  have hrows := flatMap_zipIdx_eq_nil_iff (l := p.constraints) fun c i =>
    @constraintDefects_eq_nil_iff _ _ p.columns.length i c
  have hcolumns := flatMap_zipIdx_eq_nil_iff (l := p.columns) fun c i =>
    @columnDefects_eq_nil_iff _ _ i c
  rw [validate_eq_ok_iff, defects, List.append_eq_nil_iff, List.append_eq_nil_iff, hrows, hcolumns,
    List.flatMap_eq_nil_iff]
  simp only [objectiveDefects_eq_nil_iff]
  exact ⟨fun ⟨⟨ho, hr⟩, hc⟩ => ⟨ho, hr, hc⟩, fun h => ⟨⟨h.objective, h.rows⟩, h.columns⟩⟩

namespace Problem.Valid

variable {p : Problem α}

theorem modifyColumn (h : p.Valid) (i : Nat) {f : Column α → Column α}
    (hf : ∀ c, boundsConsistent c.lower c.upper = true →
      boundsConsistent (f c).lower (f c).upper = true) :
    Problem.Valid { p with columns := p.columns.modify i f } where
  objective := h.objective.mono (List.length_modify ..).ge
  rows c hc := ⟨(h.rows c hc).1.mono (List.length_modify ..).ge, (h.rows c hc).2⟩
  columns := Mps.forall_mem_modify h.columns hf

theorem addColumn (h : p.Valid) {c : Column α} (hc : boundsConsistent c.lower c.upper = true) :
    Problem.Valid { p with columns := p.columns ++ [c] } := by
  have hle : p.columns.length ≤ (p.columns ++ [c]).length := by simp
  exact {
    objective := h.objective.mono hle
    rows := fun d hd => ⟨(h.rows d hd).1.mono hle, (h.rows d hd).2⟩
    columns := List.forall_mem_append.2 ⟨h.columns, List.forall_mem_singleton.2 hc⟩ }

/-- All defects of a program that was valid before its last row are those of this row. -/
theorem defects_addRow (h : p.Valid) (c : Constraint α) :
    Problem.defects { p with constraints := p.constraints ++ [c] } =
      constraintDefects p.columns.length c p.constraints.length := by
  have hp := validate_eq_ok_iff.1 (validate_eq_ok_iff_valid.2 h)
  rw [defects, List.append_eq_nil_iff, List.append_eq_nil_iff] at hp
  obtain ⟨⟨hobjective, hrows⟩, hcolumns⟩ := hp
  simp only [defects, List.zipIdx_append, List.flatMap_append, hobjective, hrows, hcolumns]
  simp

end Problem.Valid

end Valid

theorem boundsConsistent_zero : boundsConsistent (some (0 : Float)) none = true := by
  decide +kernel

theorem boundsConsistent_zero_one : boundsConsistent (some (0 : Float)) (some 1) = true := by
  decide +kernel

/-- The columns that the domains ask for have bounds that agree. -/
theorem Domain.boundsConsistent_column (d : Domain) (name : String) :
    boundsConsistent (d.column name : Column Float).lower (d.column name).upper = true := by
  obtain ⟨kind, range, constant⟩ := d
  cases range with
  | unconstrained => rfl
  | nonNegative => exact boundsConsistent_zero
  | binary => exact boundsConsistent_zero_one

section Commands

variable {α : Type}

/-- What a backend may be told while a program is put together and solved. -/
inductive Command (α : Type) where
  | send (d : Directive α)
  | setMaximize
  | solve

/-- The state that a request leaves behind, granted or refused. -/
def Request.after {β γ : Type} (r : Request β γ) (b : β) : β :=
  match r b with
  | .ok _ b' => b'
  | .error _ b' => b'

/-- What holds where a step begins and wherever it is granted, holds after it. -/
theorem Request.after_step {β γ : Type} {f : β → Except BackendError (γ × β)} {b : β}
    {P : β → Prop} (h : P b) (hf : ∀ a b', f b = .ok (a, b') → P b') :
    P (Request.after (Request.step f) b) := by
  unfold after step
  cases hb : f b with
  | error e => exact h
  | ok r => exact hf r.1 r.2 hb

def Command.after {β : Type} [Backend α β] (b : β) : Command α → β
  | send d => Request.after (Backend.send d) b
  | setMaximize => Backend.setMaximize b
  | solve => Request.after Backend.solve b

variable [Scalar α]

/-- Coefficients are finite and right-hand sides are numbers. Bounds may be anything. -/
def Command.Numeric : Command α → Prop
  | send (.addRow terms _ bound) =>
    (∀ t ∈ terms, Scalar.isFinite t.2 = true) ∧ Scalar.isNaN bound = false
  | send (.setObjective terms) => ∀ t ∈ terms, Scalar.isFinite t.2 = true
  | _ => True

instance : DecidablePred (Command.Numeric (α := α))
  | .send (.addRow ..) => inferInstanceAs (Decidable (_ ∧ _))
  | .send (.setObjective terms) =>
    inferInstanceAs (Decidable (∀ t ∈ terms, Scalar.isFinite t.2 = true))
  | .send .addColumn | .send (.setColumnName ..) | .send (.setInteger ..) | .send (.setBinary _)
  | .send (.setBounds ..) | .setMaximize | .solve => .isTrue trivial

end Commands

namespace ServiceBackend

section Offsets

variable {α : Type} [Scalar α] {b b' : ServiceBackend α}

theorem proper_offsets {ts : List (Term α)} {us : Terms α} (h : b.offsets ts = .ok us)
    (hts : ∀ t ∈ ts, Scalar.isFinite t.2 = true) : Terms.Proper b.problem.columns.length us := by
  induction ts generalizing us with
  | nil =>
    cases h
    exact List.forall_mem_nil _
  | cons t ts ih =>
    obtain ⟨c, a⟩ := t
    obtain ⟨ha, hts⟩ := List.forall_mem_cons.1 hts
    rw [offsets] at h
    split at h
    · rename_i hc
      obtain ⟨vs, hvs, rfl⟩ := Mps.exists_of_map_eq_ok h
      exact List.forall_mem_cons.2 ⟨⟨(hasColumn_iff.1 hc).2, ha⟩, ih hvs hts⟩
    · cases h

theorem valid_modifyColumn (h : b.problem.Valid) {c : ColumnId} {f : Column α → Column α}
    (hm : b.modifyColumn c f = .ok b')
    (hf : ∀ col, boundsConsistent col.lower col.upper = true →
      boundsConsistent (f col).lower (f col).upper = true) : b'.problem.Valid := by
  unfold modifyColumn at hm
  split at hm <;> cases hm
  exact h.modifyColumn c.offset hf

end Offsets

variable {b b' : ServiceBackend Float}

/-- A directive that is granted leaves a valid program valid. -/
theorem valid_apply (h : b.problem.Valid) {d : Directive Float} (hd : (Command.send d).Numeric)
    (ha : b.apply d = .ok b') : b'.problem.Valid := by
  cases d with
  | addColumn =>
    cases ha
    exact h.addColumn boundsConsistent_zero
  | setColumnName c name =>
    rw [apply] at ha
    split at ha
    · cases ha
    · exact valid_modifyColumn h ha fun _ hc => hc
  | setInteger c integer => exact valid_modifyColumn h ha fun _ hc => hc
  | setBinary c => exact valid_modifyColumn h ha fun _ _ => boundsConsistent_zero_one
  | setBounds c lower upper =>
    rw [apply] at ha
    split at ha
    · rename_i hbounds
      exact valid_modifyColumn h ha fun _ _ => hbounds
    · cases ha
  | addRow terms sense bound =>
    obtain ⟨us, hus, rfl⟩ := Mps.exists_of_map_eq_ok ha
    have hproper : Terms.Proper b.problem.columns.length us := proper_offsets hus hd.1
    exact { h with
      rows := List.forall_mem_append.2 ⟨h.rows, List.forall_mem_singleton.2 ⟨hproper, hd.2⟩⟩ }
  | setObjective terms =>
    obtain ⟨us, hus, rfl⟩ := Mps.exists_of_map_eq_ok ha
    have hproper : Terms.Proper b.problem.columns.length us := proper_offsets hus hd
    exact { h with objective := hproper }

theorem valid_after [Json.NumberReader] (h : b.problem.Valid) {c : Command Float} (hc : c.Numeric) :
    (c.after b).problem.Valid := by
  let P (b : ServiceBackend Float) : Prop := b.problem.Valid
  cases c with
  | send d =>
    refine Request.after_step (P := P) h fun _ b' hb => ?_
    obtain ⟨b'', ha, he⟩ := Mps.exists_of_map_eq_ok hb
    obtain rfl := congrArg Prod.snd he
    exact valid_apply h hc ha
  | setMaximize => exact { h with }
  | solve =>
    refine Request.after_step (P := P) h fun _ b' hb => ?_
    obtain ⟨s, reported, -, -, rfl⟩ := exists_of_solve hb
    exact h

def afterAll [Json.NumberReader] (b : ServiceBackend Float) (cs : List (Command Float)) :
    ServiceBackend Float :=
  cs.foldl Command.after b

theorem valid_afterAll [Json.NumberReader] (h : b.problem.Valid) {cs : List (Command Float)}
    (hcs : ∀ c ∈ cs, c.Numeric) : (b.afterAll cs).problem.Valid := by
  induction cs generalizing b with
  | nil => exact h
  | cons c cs ih =>
    obtain ⟨hc, hcs⟩ := List.forall_mem_cons.1 hcs
    exact ih (valid_after h hc) hcs

/-- Whatever a new backend is told, with any columns and any bounds, its program passes the check
for defects after each command, granted or refused, as long as the coefficients are finite and the
right-hand sides are numbers. -/
theorem commands_keep_valid [Json.NumberReader] (service : SolverService Float)
    (config : Config Float) {cs : List (Command Float)} (hcs : ∀ c ∈ cs, c.Numeric) :
    ∀ ds, ds <+: cs →
      (afterAll { service, problem := { config } } ds).problem.validate = .ok () := by
  intro ds hds
  have hempty : Problem.Valid { config : Problem Float } :=
    ⟨List.forall_mem_nil _, List.forall_mem_nil _, List.forall_mem_nil _⟩
  exact Problem.validate_eq_ok_iff_valid.2
    (valid_afterAll hempty fun c hc => hcs c (hds.subset hc))

/-- Columns that are not there, bounds that are none, and rows and objectives beside them that are
in order. -/
def carelessCommands : List (Command Float) :=
  [.send .addColumn, .send (.setBounds ⟨1⟩ (some Binary64.notANumber) none),
    .send (.setBounds ⟨1⟩ (some 1) (some 0)), .send (.setBinary ⟨0⟩), .send (.setBinary ⟨1⟩),
    .send (.setBounds ⟨1⟩ (some Binary64.infinity) none), .send (.setInteger ⟨2⟩ true),
    .send (.addRow [(⟨1⟩, 1), (⟨2⟩, 1)] .equal 0), .send (.setObjective [(⟨1⟩, 1), (⟨0⟩, 1)]),
    .setMaximize, .send (.addRow [(⟨1⟩, 1), (⟨1⟩, -1)] .lessEqual Binary64.infinity), .solve,
    .send (.setInteger ⟨1⟩ false)]

theorem commands_keep_valid_careless :
    let b : ServiceBackend Float := { service := ({} : Script Float).service }
    (∀ c ∈ carelessCommands, c.Numeric) ∧
      (b.afterAll carelessCommands).problem.constraints.length = 1 ∧
      (b.afterAll carelessCommands).problem.validate = .ok () := by
  have hcs : ∀ c ∈ carelessCommands, c.Numeric := by decide +kernel
  exact ⟨hcs, by decide +kernel,
    commands_keep_valid ({} : Script Float).service {} hcs _ (List.prefix_refl _)⟩

end ServiceBackend

end LinearProgram
