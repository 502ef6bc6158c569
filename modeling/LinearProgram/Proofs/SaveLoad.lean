import LinearProgram.Model.Restore
import LinearProgram.Proofs.Additions
import LinearProgram.Proofs.MpsComments
import LinearProgram.Proofs.NativeRoundTrip
import LinearProgram.Proofs.SingleRequests

/-! Saving a model that was built, and loading it into a new one. -/

namespace LinearProgram

namespace Files

theorem readText?_of_writeText? {fs fs' : Files} {path text : String}
    (h : fs.writeText? path text = some fs') : fs'.readText? path = some text := by
  rw [readText?, read?_of_write? h, Option.bind_some, String.toUTF8_eq_toByteArray,
    String.fromUTF8?, dif_pos text.isValidUTF8]
  rfl

end Files

def ServiceBackend.holding {α : Type} (b : ServiceBackend α) (q : Problem α) : ServiceBackend α :=
  { b with problem := { q with config := b.problem.config }, solution := none }

namespace Problem

variable {α : Type} [Codec α] {p : Problem α} {path text : String} {files files' : Files}

theorem save_of_encode (ht : Codec.encode (Format.ofPath path) p = .ok text)
    (hw : files.writeText? path text = some files') :
    p.save path files =
      .ok (files', [.savedFile path p.columns.length p.constraints.length]) := by
  rw [save, ht, Mps.ok_bind, hw]
  rfl

theorem exists_of_save {reported : List Event} (h : p.save path files = .ok (files', reported)) :
    ∃ text, Codec.encode (Format.ofPath path) p = .ok text ∧ files'.readText? path = some text := by
  rw [save] at h
  cases ht : Codec.encode (Format.ofPath path) p with
  | error e =>
    rw [ht] at h
    cases h
  | ok text =>
    rw [ht, Mps.ok_bind] at h
    cases hw : files.writeText? path text with
    | none =>
      rw [hw] at h
      cases h
    | some written =>
      rw [hw] at h
      cases h
      exact ⟨text, rfl, Files.readText?_of_writeText? hw⟩

theorem load_eq (hr : files.readText? path = some text) :
    (load path files : Except BackendError (Problem α × List Event)) =
      (Codec.decode (Format.ofPath path) text).map fun q =>
        (q, [.loadedFile path q.columns.length q.constraints.length]) := by
  rw [load, hr]
  rfl

theorem exists_of_load {reported : List Event} (h : load path files = .ok (p, reported)) :
    ∃ text, files.readText? path = some text ∧ Codec.decode (Format.ofPath path) text = .ok p := by
  unfold load at h
  cases hr : files.readText? path with
  | none =>
    rw [hr] at h
    cases h
  | some text =>
    rw [hr] at h
    obtain ⟨q, hq, he⟩ := Mps.exists_of_map_eq_ok h
    cases he
    exact ⟨text, rfl, hq⟩

end Problem

variable {α : Type} [Scalar α] [Codec α] {m m' : Model α (ServiceBackend α)}

namespace ServiceBackend

variable {b : ServiceBackend α} {path text : String} {files : Files} {q : Problem α}
  {e : BackendError}

theorem save_of_ok {r : Files × List Event} (h : b.problem.save path files = .ok r) :
    Backend.save path files b = .ok r b :=
  Request.step_of_ok (by rw [h]; rfl)

theorem save_of_error (h : b.problem.save path files = .error e) :
    Backend.save path files b = .error e b :=
  Request.step_of_error (by rw [h]; rfl)

theorem load_of_ok {reported : List Event} (h : Problem.load path files = .ok (q, reported)) :
    Backend.load path files b = .ok reported (b.holding q) :=
  Request.step_of_ok (by rw [load, h]; rfl)

theorem load_of_error
    (h : (Problem.load path files : Except BackendError (Problem α × List Event)) = .error e) :
    Backend.load path files b = .error e b :=
  Request.step_of_error (by rw [load, h]; rfl)

theorem load_of_decode (b : ServiceBackend α) (hr : files.readText? path = some text)
    (hd : Codec.decode (Format.ofPath path) text = .ok q) :
    Backend.load path files b =
      .ok [.loadedFile path q.columns.length q.constraints.length] (b.holding q) :=
  load_of_ok (by rw [Problem.load_eq hr, hd]; rfl)

end ServiceBackend

theorem Model.heldVariables_eq (b : ServiceBackend α) :
    heldVariables b = .ok (b.problem.columns.map VariableInfo.ofColumn) := by
  have hfrom (k : Nat) (cs : List (Column α)) (h : b.problem.columns.drop k = cs) :
      ((List.range' k cs.length).mapM fun i =>
        (b.column (.ofOffset i)).map VariableInfo.ofColumn) =
      Except.ok (cs.map VariableInfo.ofColumn) := by
    induction cs generalizing k with
    | nil => rfl
    | cons c cs ih =>
      have hk : b.problem.columns[k]? = some c := by
        rw [← List.head?_drop, h]
        rfl
      have hc : b.column (.ofOffset k) = .ok c := by
        have hne : (ColumnId.ofOffset k).number ≠ 0 := by simp [ColumnId.ofOffset]
        rw [ServiceBackend.column, if_neg hne, ColumnId.offset_ofOffset, hk]
      have hrest := ih (k + 1) (by rw [← List.drop_drop, h]; rfl)
      rw [List.length_cons, List.range'_succ, List.mapM_cons, hc, hrest]
      rfl
  rw [← hfrom 0 b.problem.columns rfl, ← List.range_eq_range']
  rfl

/-- The model once a program has been read into it. -/
def Model.restoredFrom (m : Model α (ServiceBackend α)) (q : Problem α) :
    Model α (ServiceBackend α) :=
  { m with backend := m.backend.holding q }.adopt (q.columns.map VariableInfo.ofColumn)

namespace Call

variable {path text : String} {files files' : Files} {q : Problem α}

theorem saved_of_save (h : save path files m = .ok files' m') :
    ∃ reported, m.backend.problem.save path files = .ok (files', reported) ∧
      m' = { m with events := m.events ++ reported } := by
  obtain ⟨_, _, hu, -⟩ := bind_eq_ok_iff.1 h
  have hp : m.poisoned = false := (usable_eq_ok_iff.1 hu).1
  cases hs : m.backend.problem.save path files with
  | error e =>
    rw [save_of_error hp (ServiceBackend.save_of_error hs)] at h
    cases h
  | ok r =>
    rw [save_of_ok hp (ServiceBackend.save_of_ok hs)] at h
    cases h
    exact ⟨_, rfl, rfl⟩

theorem exists_of_save (h : save path files m = .ok files' m') :
    ∃ text, Codec.encode (Format.ofPath path) m.backend.problem = .ok text ∧
      files'.readText? path = some text := by
  obtain ⟨reported, hs, -⟩ := saved_of_save h
  exact Problem.exists_of_save hs

/-- Saving leaves the model as it was, but for what it has reported. -/
theorem eq_of_save (h : save path files m = .ok files' m') :
    ∃ events, m' = { m with events } := by
  obtain ⟨reported, -, rfl⟩ := saved_of_save h
  exact ⟨_, rfl⟩

theorem save_of_encode (hp : m.poisoned = false)
    (ht : Codec.encode (Format.ofPath path) m.backend.problem = .ok text)
    (hw : files.writeText? path text = some files') :
    ∃ m', save path files m = .ok files' m' :=
  ⟨_, save_of_ok hp (ServiceBackend.save_of_ok (Problem.save_of_encode ht hw))⟩

/-- Loading gives the restored model, and what it has reported. -/
theorem restored_of_decode (hp : m.poisoned = false) (hr : files.readText? path = some text)
    (hd : Codec.decode (Format.ofPath path) text = .ok q) :
    ∃ events, load path files m =
      .ok ⟨q.constraints.length, q.columns.length⟩ { m.restoredFrom q with events } := by
  have hs : Backend.load path files m.backend = .ok _ (m.backend.holding q) :=
    m.backend.load_of_decode hr hd
  exact load_of_held hp hs (Model.heldVariables_eq _)

theorem load_of_decode (hp : m.poisoned = false) (hr : files.readText? path = some text)
    (hd : Codec.decode (Format.ofPath path) text = .ok q) :
    ∃ m', load path files m = .ok ⟨q.constraints.length, q.columns.length⟩ m' := by
  obtain ⟨events, h⟩ := restored_of_decode hp hr hd
  exact ⟨_, h⟩

theorem load_of_refused {e : BackendError} (hp : m.poisoned = false)
    (hr : files.readText? path = some text)
    (hd : (Codec.decode (Format.ofPath path) text : Except BackendError (Problem α)) = .error e) :
    ∃ m', load path files m = .error (.backend .loadModel e) m' := by
  have hload : (Problem.load path files : Except _ (Problem α × List Event)) = .error e := by
    rw [Problem.load_eq hr, hd]
    rfl
  exact ⟨_, load_of_error hp (ServiceBackend.load_of_error hload)⟩

theorem exists_of_load {s : Snapshot} (hp : m.poisoned = false)
    (hr : files.readText? path = some text) (h : load path files m = .ok s n) :
    ∃ q events, Codec.decode (Format.ofPath path) text = .ok q ∧
      s = ⟨q.constraints.length, q.columns.length⟩ ∧ n = { m.restoredFrom q with events } := by
  cases hd : (Codec.decode (Format.ofPath path) text : Except BackendError (Problem α)) with
  | error e =>
    obtain ⟨m', hfail⟩ := load_of_refused hp hr hd
    rw [h] at hfail
    cases hfail
  | ok q =>
    obtain ⟨events, hload⟩ := restored_of_decode hp hr hd
    obtain ⟨rfl, rfl⟩ := EStateM.Result.ok.inj (h.symm.trans hload)
    exact ⟨q, events, rfl, rfl, rfl⟩

end Call

open Binary64 Json

/-- What a program needs in order to be read back. The native form has no text for an infinite
coefficient, and in the other one a name with an asterisk in front makes its line a comment. -/
def Problem.Reloadable (p : Problem Float) : Format → Prop
  | .json => p.objective.terms.storable = true ∧ ∀ c ∈ p.constraints, c.terms.storable = true
  | .freeMps => ∀ c ∈ p.columns, c.name.toList.head? ≠ some '*'

namespace Problem

variable {p : Problem Float} {text : String}

theorem storable_iff (h : ∀ c ∈ p.constraints, isFinite c.bound = true) :
    p.storable = true ↔ p.Reloadable .json := by
  simp only [storable, Reloadable, Constraint.storable, Bool.and_eq_true, List.all_eq_true]
  refine and_congr_right fun _ => forall₂_congr fun c hc => ?_
  simp [h c hc]

theorem decode_of_reloadable [NumberReader] {f : Format} (hnd : (p.columns.map (·.name)).Nodup)
    (hb : ∀ c ∈ p.constraints, isFinite c.bound = true) (he : Codec.encode f p = .ok text)
    (hread : f = .json → ∀ x ∈ p.numbers, Legible x) (hr : p.Reloadable f) :
    ∃ q : Problem Float, Codec.decode f text = .ok q ∧
      q.constraints.length = p.constraints.length ∧ q.columns.length = p.columns.length := by
  cases f with
  | json =>
    obtain rfl := Except.ok.inj he
    have hp := ofJson?_read?_pretty fun x hx => (hread rfl x hx).readsAs
    rw [if_pos ((storable_iff hb).2 hr)] at hp
    refine ⟨p.restored.mapNumbers reread, ?_, by simp [restored, mapNumbers],
      by simp [restored, mapNumbers]⟩
    simp only [Codec.decode, hp]
  | freeMps =>
    cases hw : Mps.write p with
    | error o => simp [Codec.encode, hw, Except.mapError] at he
    | ok written =>
      obtain rfl : written = text := by simpa [Codec.encode, hw, Except.mapError] using he
      have hread := Mps.read_write ⟨hnd, Mps.isWord_of_write hw, hr⟩ hw
      refine ⟨Mps.reread p, ?_, by simp [Mps.reread], by simp [Mps.reread]⟩
      simp only [Codec.decode, hread, Except.mapError]

theorem decode_of_not_reloadable [NumberReader] {f : Format}
    (hb : ∀ c ∈ p.constraints, isFinite c.bound = true) (he : Codec.encode f p = .ok text)
    (hread : f = .json → ∀ x ∈ p.numbers, Legible x) (hr : ¬ p.Reloadable f) :
    ∃ e, (Codec.decode f text : Except BackendError (Problem Float)) = .error e := by
  cases f with
  | json =>
    obtain rfl := Except.ok.inj he
    have hp := ofJson?_read?_pretty fun x hx => (hread rfl x hx).readsAs
    rw [if_neg fun hs => hr ((storable_iff hb).1 hs)] at hp
    exact ⟨.json, by simp only [Codec.decode, hp]⟩
  | freeMps =>
    cases hw : Mps.write p with
    | error o => simp [Codec.encode, hw, Except.mapError] at he
    | ok written =>
      obtain rfl : written = text := by simpa [Codec.encode, hw, Except.mapError] using he
      simp only [Reloadable, not_forall, not_not] at hr
      obtain ⟨c, hc, hn⟩ := hr
      obtain ⟨e, hread⟩ := Mps.read_write_comment hw hc hn
      exact ⟨_, by simp only [Codec.decode, hread, Except.mapError]; rfl⟩

end Problem

namespace Build

variable {id : ModelId} {service : SolverService Float} {config : Config Float}
  {events : List Event} {ss : List (Step Float)} {m : Model Float (ServiceBackend Float)}

theorem isFinite_bounds [NumberReader] (hb : Build (Model.fresh id service config events) ss m) :
    ∀ c ∈ m.backend.problem.constraints, isFinite c.bound = true := by
  intro c hc
  rcases hb.checked_bounds c hc with h | h
  · rw [h]
    decide
  · exact h

/-- A model that was built and saved is loaded by any new model, with as many rows and columns,
just when its program is one that can be read back. How close the numbers in it come to the saved
ones makes no difference, as long as none is refused. -/
theorem load_saved [NumberReader] (hb : Build (Model.fresh id service config events) ss m)
    {path : String} {files files' later : Files} {m' : Model Float (ServiceBackend Float)}
    (hs : Call.save path files m = .ok files' m')
    (hl : later.readText? path = files'.readText? path)
    (hread : Format.ofPath path = .json → ∀ x ∈ m.backend.problem.numbers, Legible x)
    (id' : ModelId) (service' : SolverService Float) (config' : Config Float)
    (events' : List Event) :
    (m.backend.problem.Reloadable (Format.ofPath path) →
      ∃ n, Call.load path later (Model.fresh id' service' config' events') = .ok m.snapshot n) ∧
    (¬ m.backend.problem.Reloadable (Format.ofPath path) →
      ∃ e n, Call.load path later (Model.fresh id' service' config' events') = .error e n) := by
  obtain ⟨text, he, hr⟩ := Call.exists_of_save hs
  rw [hr] at hl
  have hnd : (m.backend.problem.columns.map (·.name)).Nodup := by
    rw [hb.names_columns]
    exact hb.nodup_names
  have hcounts : m.snapshot =
      ⟨m.backend.problem.constraints.length, m.backend.problem.columns.length⟩ := by
    rw [Model.snapshot, hb.inStep.rows, hb.inStep.columns]
  constructor
  · intro hp
    obtain ⟨q, hd, hrows, hcolumns⟩ :=
      Problem.decode_of_reloadable hnd hb.isFinite_bounds he hread hp
    rw [hcounts, ← hrows, ← hcolumns]
    exact Call.load_of_decode rfl hl hd
  · intro hp
    obtain ⟨e, hd⟩ := Problem.decode_of_not_reloadable hb.isFinite_bounds he hread hp
    exact ⟨_, Call.load_of_refused rfl hl hd⟩

abbrev newModel (n : Nat) : Model Float (ServiceBackend Float) :=
  Model.fresh ⟨n⟩ ({} : Script Float).service {} []

/-- One variable, named like a comment. -/
def starred : Model Float (ServiceBackend Float) :=
  (newModel 0).grow { name := "*x", domain := .anyReal }

/-- The smallest number above zero, of which the reciprocal is infinite. -/
def least : Float :=
  ofBitPattern false 1

/-- A variable, and what it is divided by the smallest number. -/
def divided : Model Float (ServiceBackend Float) :=
  ((newModel 0).grow { name := "x", domain := .anyReal }).defined .anyReal none
    ("x / " ++ Scalar.text least) (LinearRow.empty.add ⟨1⟩ (1 / least))

theorem build_starred : ∃ ss, Build (newModel 0) ss starred := by
  have b₀ : Build (newModel 0) [] _ := .new
  have b₁ := b₀.call (e := .made (.create "*x") .anyReal ⟨⟨0⟩, 0, ⟨1⟩⟩)
    ((Call.create_eq_ok_iff b₀.inStep).2 ⟨⟨rfl, rfl⟩, rfl, rfl, by decide, rfl, rfl⟩)
  exact ⟨_, b₁⟩

theorem build_divided : ∃ ss, Build (newModel 0) ss divided := by
  have b₀ : Build (newModel 0) [] _ := .new
  have b₁ := b₀.call (e := .made (.create "x") .anyReal ⟨⟨0⟩, 0, ⟨1⟩⟩)
    ((Call.create_eq_ok_iff b₀.inStep).2 ⟨⟨rfl, rfl⟩, rfl, rfl, by decide, rfl, rfl⟩)
  have b₂ := b₁.call (e := .made (.divide ⟨⟨0⟩, 0, ⟨1⟩⟩ least) .anyReal ⟨⟨0⟩, 0, ⟨2⟩⟩)
    ((Call.divide_eq_ok_iff b₁.inStep).2
      ⟨⟨rfl, rfl⟩, by decide +kernel, by decide +kernel, rfl, rfl, _, rfl, rfl⟩)
  exact ⟨_, b₂⟩

/-- Each form keeps one model from coming back, and the native one brings the other back. -/
theorem load_saved_starred :
    (∃ files m', Call.save "x.json" {} starred = .ok files m' ∧
      ∃ n, Call.load "x.json" files (newModel 1) = .ok ⟨0, 1⟩ n) ∧
    (∃ files m', Call.save "x.mps" {} starred = .ok files m' ∧
      ∃ e n, Call.load "x.mps" files (newModel 1) = .error e n) ∧
    ∃ files m', Call.save "x.json" {} divided = .ok files m' ∧
      ∃ e n, Call.load "x.json" files (newModel 1) = .error e n := by
  obtain ⟨ss, hb⟩ := build_starred
  obtain ⟨ts, hd⟩ := build_divided
  have hjson : Format.ofPath "x.json" = .json := by decide
  have hmps : Format.ofPath "x.mps" = .freeMps := by decide
  obtain ⟨text, hwrite⟩ : ∃ text, Mps.write starred.backend.problem = .ok text := by
    have ho : Mps.obstacle? starred.backend.problem = none := by decide +kernel
    rw [Mps.write, ho]
    exact ⟨_, rfl⟩
  obtain ⟨m₁, h₁⟩ : ∃ m', Call.save "x.json" {} starred = .ok _ m' :=
    Call.save_of_encode rfl (by rw [hjson]; rfl) rfl
  obtain ⟨m₂, h₂⟩ : ∃ m', Call.save "x.mps" {} starred = .ok _ m' :=
    Call.save_of_encode rfl (by rw [hmps]; simp only [Codec.encode, hwrite]; rfl) rfl
  obtain ⟨m₃, h₃⟩ : ∃ m', Call.save "x.json" {} divided = .ok _ m' :=
    Call.save_of_encode rfl (by rw [hjson]; rfl) rfl
  have hread : ∀ x ∈ starred.backend.problem.numbers, Legible x := by decide +kernel
  have hdread : ∀ x ∈ divided.backend.problem.numbers, Legible x := by decide +kernel
  refine ⟨⟨_, m₁, h₁, (hb.load_saved h₁ rfl (fun _ => hread) ⟨1⟩ _ _ _).1 ?_⟩,
    ⟨_, m₂, h₂, (hb.load_saved h₂ rfl (fun _ => hread) ⟨1⟩ _ _ _).2 ?_⟩,
    ⟨_, m₃, h₃, (hd.load_saved h₃ rfl (fun _ => hdread) ⟨1⟩ _ _ _).2 ?_⟩⟩
  · rw [hjson]
    exact ⟨rfl, List.forall_mem_nil _⟩
  · rw [hmps]
    exact fun h => h _ List.mem_cons_self rfl
  · have hterms : divided.backend.problem.constraints.all (fun c => c.terms.storable) = false := by
      decide +kernel
    rw [hjson]
    intro h
    rw [List.all_eq_true.2 h.2] at hterms
    cases hterms

end Build

end LinearProgram
