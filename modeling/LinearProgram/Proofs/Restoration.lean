import LinearProgram.Proofs.KeptInFiles

/-! A model that is saved and loaded into a new one. The new model resembles the old one, and goes
on like it in whatever is called on both. -/

namespace LinearProgram

section Likeness

variable {α : Type} [Scalar α] [Codec α] {m n : Model α (ServiceBackend α)} {q : Problem α}

omit [Codec α] in
theorem LinearRow.terms_ofTerms {row : LinearRow α} (hz : ∀ t ∈ row.entries, 0 + t.2 = t.2) :
    (LinearRow.ofTerms row.terms).terms = row.terms := by
  have hentries := LinearRow.entries_ofTerms row.increasing_terms fun t ht =>
    hz t (LinearRow.mem_terms.1 ht).1
  rw [LinearRow.terms, hentries]
  exact List.filter_eq_self.2 fun t ht => by simp [(LinearRow.mem_terms.1 ht).2]

omit [Codec α] in
/-- The terms of a row, by the columns that a backend has at their offsets. -/
theorem LinearRow.Within.map_offsetTerms {row : LinearRow α} {b : ServiceBackend α}
    (h : row.Within b.problem.columns.length) :
    (row.offsetTerms.map fun t => (b.columnId t.1, t.2)) = row.terms := by
  rw [offsetTerms, List.map_map]
  refine (List.map_congr_left fun t ht => ?_).trans (List.map_id _)
  obtain ⟨hpos, hle⟩ := h t (LinearRow.mem_terms.1 ht).1
  have hlt : t.1.offset < b.problem.columns.length := by
    unfold ColumnId.offset
    omega
  show (b.columnId t.1.offset, t.2) = t
  rw [ServiceBackend.columnId, if_pos hlt, ColumnId.ofOffset_offset hpos.ne']

theorem Model.Tidy.objectiveTerms_restoredFrom (h : m.Tidy)
    (hz : ∀ row ∈ m.objective, ∀ t ∈ row.entries, 0 + t.2 = t.2)
    (hq : m.backend.problem.Restores q) (n : Model α (ServiceBackend α)) :
    (n.restoredFrom q).objectiveTerms = m.objectiveTerms := by
  let ts := q.objective.terms.map fun t => ((n.backend.holding q).columnId t.1, t.2)
  have hts : ts = m.objectiveTerms := by
    simp only [ts, objectiveTerms]
    rw [hq.objective, h.held]
    cases hrow : m.objective with
    | none => rfl
    | some row =>
      have hw : row.Within (n.backend.holding q).problem.columns.length := by
        show row.Within q.columns.length
        rw [hq.columns]
        exact h.within row hrow
      exact hw.map_offsetTerms
  show ((if ts.isEmpty then none else some (LinearRow.ofTerms ts)).map LinearRow.terms).getD [] = _
  rw [hts]
  cases hrow : m.objective with
  | none => simp [objectiveTerms, hrow]
  | some row =>
    have hterms : m.objectiveTerms = row.terms := by simp [objectiveTerms, hrow]
    rw [hterms]
    -- no terms are read back as no objective
    by_cases he : row.terms.isEmpty = true
    · rw [if_pos he, List.isEmpty_iff.1 he]
      rfl
    · rw [if_neg he]
      exact LinearRow.terms_ofTerms (hz row hrow)

theorem Model.Tidy.resembles_restoredFrom (h : m.Tidy) (hm : m.poisoned = false)
    (hn : n.poisoned = false) (hz : ∀ row ∈ m.objective, ∀ t ∈ row.entries, 0 + t.2 = t.2)
    (hq : m.backend.problem.Restores q) : m.Resembles (n.restoredFrom q) where
  entries := by
    show _ = (q.columns.map VariableInfo.ofColumn).map VariableInfo.outward
    rw [hq.columns, h.columns, List.map_map, List.map_map]
    exact List.map_congr_left fun e he => (VariableInfo.outward_ofColumn (h.supported e he)).symm
  rows := h.inStep.rows.trans hq.rows.symm
  columns := h.inStep.columns.trans (congrArg List.length hq.columns).symm
  heldRows := hq.rows.symm
  heldColumns := (congrArg List.length hq.columns).symm
  objective := (h.objectiveTerms_restoredFrom hz hq n).symm
  state := h.unsolved
  poisoned := hm.trans hn.symm

end Likeness

section Restoring

open Binary64 Json

variable {id : ModelId} {service : SolverService Float} {config : Config Float}
  {events : List Event}

/-- What the form of a file asks of a model. The native one has no text for what is not finite and
counts columns in 64 bits; in the other one an asterisk in front makes a comment of a line. -/
def Model.Restorable (m : Model Float (ServiceBackend Float)) : Format → Prop
  | .json => m.columns ≤ UInt64.size ∧
      ∀ c ∈ m.backend.problem.constraints, ∀ t ∈ c.terms, isFinite t.2 = true
  | .freeMps => ∀ name ∈ m.registry.names, name.toList.head? ≠ some '*'

theorem Model.Tidy.reloadable {m : Model Float (ServiceBackend Float)} (h : m.Tidy)
    (hnames : m.backend.problem.columns.map (·.name) = m.registry.names) {f : Format}
    (hr : m.Restorable f) : m.backend.problem.Reloadable f := by
  cases f with
  | json =>
    obtain ⟨hsize, hfinite⟩ := hr
    rw [h.inStep.columns] at hsize
    have hstorable {ts : Terms Float} (hlt : ∀ t ∈ ts, t.1 < m.backend.problem.columns.length)
        (hf : ∀ t ∈ ts, isFinite t.2 = true) : ts.storable = true := by
      refine List.all_eq_true.2 fun t ht => ?_
      simp [Nat.lt_of_lt_of_le (hlt t ht) hsize, hf t ht]
    refine ⟨?_, fun c hc => hstorable (h.constraints c hc) (hfinite c hc)⟩
    rw [h.held]
    cases hrow : m.objective with
    | none => rfl
    | some row =>
      refine hstorable (h.within row hrow).lt_of_mem_offsetTerms fun t ht => ?_
      obtain ⟨s, hs, rfl⟩ := List.mem_map.1 ht
      exact (h.ones row hrow s (LinearRow.mem_terms.1 hs).1).isCount.isFinite
  | freeMps =>
    intro c hc
    exact hr c.name (hnames ▸ List.mem_map_of_mem hc)

/-- A model that has only been built, and one that has been restored from it, cannot be told apart
by building on. Of a native file, its numbers are assumed to be read. -/
theorem Model.restored_continues [NumberReader] {is : List (Instruction Float)}
    {m m' : Model Float (ServiceBackend Float)}
    (hm : (Model.fresh id service config events).after (is.map .build) = m)
    (hp : m.poisoned = false) {path : String} {files files' later : Files}
    (hs : Call.save path files m = .ok files' m')
    (hl : later.readText? path = files'.readText? path)
    (hread : Format.ofPath path = .json → m.backend.problem.Understood) (id' : ModelId)
    (service' : SolverService Float) (config' : Config Float) (events' : List Event) :
    let load := Call.load path later (Model.fresh id' service' config' events')
    (m.Restorable (Format.ofPath path) → ∃ n, load = .ok m.snapshot n) ∧
    ∀ s n, load = .ok s n →
      s = m.snapshot ∧ m'.Resembles n ∧ (∀ e ∈ n.registry.entries, e.constant = none) ∧
      ∀ js : List (Instruction Float), (∀ j ∈ js, j.IsPlain) →
        let as := sessionOn m'.registry.handle js
        let bs := sessionOn n.registry.handle js
        m'.told as = n.told bs ∧ m'.replies as = n.replies bs ∧
          (m'.after as).Resembles (n.after bs) := by
  intro load
  obtain ⟨ss, hb⟩ := Build.after .new is (by rw [hm]; exact hp)
  rw [hm] at hb
  have ht := hb.tidy
  obtain ⟨text, he, hr⟩ := Call.exists_of_save hs
  obtain ⟨reported, rfl⟩ := Call.eq_of_save hs
  rw [hr] at hl
  have hnd : (m.backend.problem.columns.map (·.name)).Nodup := by
    rw [hb.names_columns]
    exact hb.nodup_names
  have hcounts (q : Problem Float)
      (hrows : q.constraints.length = m.backend.problem.constraints.length)
      (hcolumns : q.columns.length = m.backend.problem.columns.length) :
      (⟨q.constraints.length, q.columns.length⟩ : Snapshot) = m.snapshot := by
    rw [hrows, hcolumns, snapshot, ht.inStep.rows, ht.inStep.columns]
  refine ⟨fun hfile => ?_, fun s n hload => ?_⟩
  · obtain ⟨q, hd, hrows, hcolumns⟩ := Problem.decode_of_reloadable hnd hb.isFinite_bounds he
      (fun hf => (hread hf).legible) (ht.reloadable hb.names_columns hfile)
    rw [← hcounts q hrows hcolumns]
    exact Call.load_of_decode rfl hl hd
  · obtain ⟨q, reported', hd, rfl, rfl⟩ := Call.exists_of_load rfl hl hload
    have hq := ht.restores hnd hb.isFinite_bounds hread he hd
    have hz : ∀ row ∈ m.objective, ∀ t ∈ row.entries, 0 + t.2 = t.2 :=
      fun row hrow t ht' => (ht.ones row hrow t ht').isCount.zero_add
    have hresembles := ht.resembles_restoredFrom hp
      (n := Model.fresh id' service' config' events') rfl hz hq
    have hres : Resembles { m with events := reported }
        { (Model.fresh id' service' config' events').restoredFrom q with events := reported' } :=
      { hresembles with }
    refine ⟨hcounts q hq.rows (congrArg List.length hq.columns), hres, ?_, fun js hjs => ?_⟩
    · exact List.forall_mem_map.2 fun c _ => rfl
    · exact hres.run ht.counted (fun j hpos hj => absurd hpos (Nat.not_lt_of_le hj)) hjs

/-- A variable with the name that would be generated second, and what is built from it. -/
def Model.mixture : Model Float (ServiceBackend Float) :=
  (Build.newModel 0).after ([
    .make (.create "_t2") .anyReal,
    .make .createAnonymous .nonNegativeInteger,
    .make (.sum ⟨⟨0⟩, 0, ⟨1⟩⟩ ⟨⟨0⟩, 0, ⟨2⟩⟩) .anyReal,
    .maximizeSum [⟨⟨0⟩, 0, ⟨3⟩⟩, ⟨⟨0⟩, 0, ⟨3⟩⟩]].map .build)

/-- One more variable, and a row that holds it below the first. -/
def Model.addition : List (Instruction Float) :=
  [.make .createAnonymous .anyReal, .relate ⟨⟨0⟩, 0, ⟨4⟩⟩ ⟨⟨0⟩, 0, ⟨1⟩⟩ .lessEqual]

theorem Model.restored_continues_mixture :
    (∃ files m' n, Call.save "x.json" {} mixture = .ok files m' ∧
      Call.load "x.json" files (Build.newModel 1) = .ok ⟨1, 3⟩ n ∧ m'.Resembles n ∧
      m'.told (sessionOn m'.registry.handle addition) =
        n.told (sessionOn n.registry.handle addition)) ∧
    ∃ files m' n, Call.save "x.mps" {} mixture = .ok files m' ∧
      Call.load "x.mps" files (Build.newModel 1) = .ok ⟨1, 3⟩ n ∧ m'.Resembles n ∧
      m'.told (sessionOn m'.registry.handle addition) =
        n.told (sessionOn n.registry.handle addition) := by
  have hp : mixture.poisoned = false := by decide +kernel
  have hcounts : mixture.snapshot = ⟨1, 3⟩ := by decide +kernel
  have hplain : ∀ j ∈ addition, j.IsPlain := by
    simp [addition, Instruction.IsPlain, Origin.IsPlain]
  have hcontinues {path text : String} {files : Files}
      (hfile : mixture.Restorable (Format.ofPath path))
      (hread : Format.ofPath path = .json → mixture.backend.problem.Understood)
      (htext : Codec.encode (Format.ofPath path) mixture.backend.problem = .ok text)
      (hwrite : ({} : Files).writeText? path text = some files) :
      ∃ files m' n, Call.save path {} mixture = .ok files m' ∧
        Call.load path files (Build.newModel 1) = .ok ⟨1, 3⟩ n ∧ m'.Resembles n ∧
        m'.told (sessionOn m'.registry.handle addition) =
          n.told (sessionOn n.registry.handle addition) := by
    obtain ⟨m', hs⟩ := Call.save_of_encode hp htext hwrite
    have h := restored_continues (m := mixture) rfl hp hs rfl hread ⟨1⟩
      ({} : Script Float).service {} []
    obtain ⟨n, hload⟩ := h.1 hfile
    obtain ⟨-, hresembles, -, hrun⟩ := h.2 _ n hload
    exact ⟨files, m', n, hs, hcounts ▸ hload, hresembles, (hrun addition hplain).1⟩
  have hjson : Format.ofPath "x.json" = .json := by decide
  have hmps : Format.ofPath "x.mps" = .freeMps := by decide
  constructor
  · have hfinite : mixture.Restorable .json := ⟨by decide +kernel, by decide +kernel⟩
    have hread : mixture.backend.problem.Understood :=
      ⟨by decide +kernel, by decide +kernel, by decide +kernel⟩
    exact hcontinues (hjson ▸ hfinite) (fun _ => hread) (by rw [hjson]; rfl) rfl
  · have hnames : mixture.Restorable .freeMps := by
      show ∀ name ∈ mixture.registry.names, name.toList.head? ≠ some '*'
      decide +kernel
    have hwritable : Mps.obstacle? mixture.backend.problem = none := by decide +kernel
    obtain ⟨text, hwrite⟩ : ∃ text, Mps.write mixture.backend.problem = .ok text := by
      rw [Mps.write, hwritable]
      exact ⟨_, rfl⟩
    have hread : Format.ofPath "x.mps" = .json → mixture.backend.problem.Understood := fun h =>
      absurd (hmps.symm.trans h) (by decide)
    exact hcontinues (hmps ▸ hnames) hread (by rw [hmps]; simp only [Codec.encode, hwrite]; rfl) rfl

end Restoring

end LinearProgram
