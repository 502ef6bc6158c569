import LinearProgram.Proofs.Handles
import LinearProgram.Proofs.NativeFiles

/-! Whether a variable can be told by its name. No call makes a variable under a name that is
taken, so this depends on the file that was loaded last. -/

namespace LinearProgram

variable {α : Type}

namespace Registry

variable {r : Registry α} {v w : Variable} {name : String}

theorem handle_mem_handles {k : Nat} (hk : k < r.entries.length) :
    r.handle (.ofOffset k) ∈ r.handles :=
  List.mem_map.2 ⟨k, List.mem_range.2 hk, rfl⟩

theorem info_handle {k : Nat} (hk : k < r.entries.length) :
    r.info (r.handle (.ofOffset k)) = .ok r.entries[k] :=
  info_eq_ok_iff.2 ⟨mem_handles_iff.1 (handle_mem_handles hk), List.getElem?_eq_getElem hk⟩

theorem exists_info_of_named? (h : r.named? name = some v) :
    ∃ i, r.info v = .ok i ∧ i.name = name := by
  have hv : r.resolve v = .ok v.column := mem_handles_iff.1 (mem_handles_of_named? h)
  obtain ⟨e, he, rfl⟩ := Option.map_eq_some_iff.1 h
  have hmem : e ∈ r.entries.zipIdx := List.mem_reverse.1 (List.mem_of_find?_eq_some he)
  have hname : e.1.name = name := by simpa using List.find?_some he
  exact ⟨e.1, info_eq_ok_iff.2 ⟨hv, List.mem_zipIdx_iff_getElem?.1 hmem⟩, hname⟩

theorem named?_eq_none_iff : r.named? name = none ↔ name ∉ r.names := by
  rw [named?, Option.map_eq_none_iff, List.find?_eq_none]
  constructor
  · intro h hmem
    obtain ⟨e, he, rfl⟩ := List.mem_map.1 hmem
    obtain ⟨k, hk, rfl⟩ := List.getElem_of_mem he
    have hzip : (r.entries[k], k) ∈ r.entries.zipIdx :=
      List.mem_zipIdx_iff_getElem?.2 (List.getElem?_eq_getElem hk)
    exact h _ (List.mem_reverse.2 hzip) (by simp)
  · intro h e he hname
    have hmem := List.mem_zipIdx_iff_getElem?.1 (List.mem_reverse.1 he)
    refine h (List.mem_map.2 ⟨e.1, List.mem_of_getElem? hmem, ?_⟩)
    simpa using hname

end Registry

namespace Model

variable {m : Model α (ServiceBackend α)} {v w : Variable}

/-- Each variable is the one that its name finds, and no other has the name. -/
structure NamesIdentify {β : Type} (m : Model α β) : Prop where
  found : ∀ v ∈ m.handles, ∃ i, m.info v = .ok i ∧ m.find? i.name = some v
  distinct : ∀ v ∈ m.handles, ∀ w ∈ m.handles, ∀ i j, m.info v = .ok i → m.info w = .ok j →
    i.name = j.name → v = w

theorem NamesIdentify.nodup (h : m.NamesIdentify) : m.registry.names.Nodup := by
  rw [List.nodup_iff_getElem?_ne_getElem?]
  intro k l hkl hl hname
  have hl : l < m.registry.entries.length := by simpa [Registry.names] using hl
  have hk : k < m.registry.entries.length := hkl.trans hl
  have hname : m.registry.entries[k].name = m.registry.entries[l].name := by
    simpa [Registry.names, hk, hl] using hname
  have he := h.distinct _ (Registry.handle_mem_handles hk) _ (Registry.handle_mem_handles hl) _ _
    (Registry.info_handle hk) (Registry.info_handle hl) hname
  have hoffset : k = l := congrArg (fun v => v.column.offset) he
  omega

theorem NamesIdentify.of_nodup (h : m.registry.names.Nodup) : m.NamesIdentify := by
  have hdistinct : ∀ v ∈ m.handles, ∀ w ∈ m.handles, ∀ i j, m.info v = .ok i → m.info w = .ok j →
      i.name = j.name → v = w := by
    intro v hv w hw i j hi hj hname
    obtain ⟨k, hk, rfl⟩ := List.mem_map.1 hv
    obtain ⟨l, hl, rfl⟩ := List.mem_map.1 hw
    have hk := List.mem_range.1 hk
    have hl := List.mem_range.1 hl
    obtain rfl := Except.ok.inj ((Registry.info_handle hk).symm.trans hi)
    obtain rfl := Except.ok.inj ((Registry.info_handle hl).symm.trans hj)
    have hlength : k < m.registry.names.length := by simpa [Registry.names] using hk
    have hkl : k = l := (List.getElem?_inj hlength h).1 (by simp [Registry.names, hk, hl, hname])
    rw [hkl]
  refine ⟨fun v hv => ?_, hdistinct⟩
  obtain ⟨i, hi⟩ := Registry.exists_info (Registry.mem_handles_iff.1 hv)
  refine ⟨i, hi, ?_⟩
  cases hfind : m.find? i.name with
  | none =>
    have hmem := List.mem_of_getElem? (Registry.info_eq_ok_iff.1 hi).2
    exact (Registry.named?_eq_none_iff.1 hfind (List.mem_map_of_mem hmem)).elim
  | some w =>
    obtain ⟨j, hj, hname⟩ := Registry.exists_info_of_named? hfind
    rw [hdistinct v hv w (Registry.mem_handles_of_named? hfind) i j hi hj hname.symm]

theorem namesIdentify_iff : m.NamesIdentify ↔ m.registry.names.Nodup :=
  ⟨NamesIdentify.nodup, .of_nodup⟩

end Model

section Drafts

variable [Scalar α]

def Plan.Free (r : Registry α) : Plan α → Prop
  | column p => r.isTaken p.info.name = false
  | relation .. | objective _ => True

theorem Instruction.yields_free (r : Registry α) (i : Instruction α) :
    Yields (Plan.Free r) (i.plan r) := by
  cases i with
  | make o d => exact (o.yields_free r d).bind fun p hp => yields_of_ok hp
  | relate a b sense => exact .after fun _ => .after fun _ => yields_of_ok trivial
  | maximize v => exact .after fun _ => yields_of_ok trivial
  | maximizeSum vs => exact .after fun _ => yields_of_ok trivial

variable {m : Model α (ServiceBackend α)} {p : Plan α}

theorem Plan.nodup_names_outcome (hp : p.Free m.registry) :
    (p.outcome m).registry.names.Nodup ↔ m.registry.names.Nodup := by
  cases p with
  | column p =>
    have hf : p.info.name ∉ m.registry.names := by
      rw [← Registry.isTaken_iff, hp]
      decide
    have hplaced : (p.place m).registry.names = m.registry.names.concat p.info.name := by
      simp [Draft.place, Model.grow, Registry.insert, Registry.names]
    have hnames : ((Plan.column p).outcome m).registry.names =
        m.registry.names.concat p.info.name := by
      rw [Plan.outcome, ← hplaced]
      cases p.row <;> rfl
    rw [hnames, List.nodup_concat]
    exact and_iff_right hf
  | relation | objective => exact .rfl

end Drafts

section Sessions

variable [Scalar α] [Codec α] {m m' : Model α (ServiceBackend α)} {a : Action α}
  {r : Except (ModelError α) (Answer α)}

theorem Model.Moves.nodup_names_iff (hm : m.Moves a r m') (hr : loads (a, r) = false) :
    m'.registry.names.Nodup ↔ m.registry.names.Nodup := by
  cases hm with
  | @built i p isOpen plan sound call =>
    have hfree : Yields (Plan.Free m.registry) (m.plan i) :=
      .after fun _ => i.yields_free m.registry
    exact Plan.nodup_names_outcome (hfree p plan)
  | loaded => cases hr
  | _ => exact .rfl

/-- The names of the columns in the file. -/
def Action.columnNames : Action α → List String
  | load path files =>
    match (Problem.load path files : Except BackendError (Problem α × List Event)) with
    | .ok (q, _) => q.columns.map (·.name)
    | .error _ => []
  | _ => []

/-- The names of the columns that were loaded last, or else those there were at first. -/
def loadedNames (names : List String) :
    List (Action α × Except (ModelError α) (Answer α)) → List String
  | [] => names
  | c :: cs => loadedNames (if loads c then c.1.columnNames else names) cs

theorem Model.names_of_loads (hl : loads (a, a.answer m) = true) :
    (a.after m).registry.names = a.columnNames := by
  obtain ⟨path, files, rfl⟩ := exists_load_of_loads hl
  have hm := m.moves_load path files
  generalize (Action.load path files).answer m = answer at hm hl
  generalize (Action.load path files).after m = m' at hm
  cases hm with
  | @loaded _ _ q reported events usable file =>
    simp [Action.columnNames, file, restoredFrom, adopt, Registry.reset, Registry.names,
      VariableInfo.ofColumn]
  | turnedAway | unloaded => cases hl

variable [ZeroIsNumber α]

theorem Model.nodup_names_after (h : m.Balanced) {names : List String}
    (hn : m.registry.names.Nodup ↔ names.Nodup) (as : List (Action α)) :
    (m.after as).registry.names.Nodup ↔ (loadedNames names (m.history as)).Nodup := by
  induction as generalizing m names with
  | nil => exact hn
  | cons a as ih =>
    have hm := moves h.inStep a
    refine ih (hm.balanced h) ?_
    cases hl : loads (a, a.answer m) with
    | true => rw [if_pos rfl, names_of_loads hl]
    | false => exact (hm.nodup_names_iff hl).trans hn

omit [Scalar α] [ZeroIsNumber α] in
theorem nodup_loadedNames {names : List String}
    {cs : List (Action α × Except (ModelError α) (Answer α))} (hn : names.Nodup)
    (h : ∀ c ∈ cs, loads c = true → c.1.columnNames.Nodup) : (loadedNames names cs).Nodup := by
  induction cs generalizing names with
  | nil => exact hn
  | cons c cs ih =>
    obtain ⟨hc, hcs⟩ := List.forall_mem_cons.1 h
    refine ih ?_ hcs
    by_cases hl : loads c = true
    · rw [if_pos hl]
      exact hc hl
    · rwa [if_neg hl]

end Sessions

/-- The columns that are read from a file of the other form have different names. -/
theorem Action.nodup_columnNames [Json.NumberReader] {path : String} (files : Files)
    (hf : Format.ofPath path = .freeMps) : (load path files : Action Float).columnNames.Nodup := by
  simp only [columnNames, Problem.load, hf]
  cases files.readText? path with
  | none => exact List.nodup_nil
  | some text =>
    simp only [Codec.decode]
    cases hr : Mps.read text with
    | error e => exact List.nodup_nil
    | ok q =>
      have hregular : Mps.Regular (fun _ => True) q :=
        Mps.regular_of_read trivial trivial (fun _ _ => trivial) hr
      exact hregular.columns

/-- In every session names identify the variables just when the columns of the file that was loaded
last have different names. A file in the native form may break this, but none in the other form. -/
theorem Model.names_identify [Json.NumberReader] (id : ModelId) (service : SolverService Float)
    (config : Config Float) (events : List Event) (as : List (Action Float)) :
    let m := Model.fresh id service config events
    ((m.after as).NamesIdentify ↔ (loadedNames [] (m.history as)).Nodup) ∧
      ((∀ path files s, (.load path files, .ok (.loaded s)) ∈ m.history as →
        Format.ofPath path = .freeMps) → (m.after as).NamesIdentify) := by
  intro m
  have hb : m.Balanced := (InStep.fresh id service config events).balanced
  have hiff : (m.after as).NamesIdentify ↔ (loadedNames [] (m.history as)).Nodup := by
    rw [namesIdentify_iff]
    exact nodup_names_after hb .rfl as
  refine ⟨hiff, fun hmps => hiff.2 (nodup_loadedNames List.nodup_nil ?_)⟩
  rintro ⟨a, r⟩ hc hl
  cases a with
  | load path files =>
    obtain ⟨s, rfl⟩ : ∃ s, r = .ok (.loaded s) := by
      unfold loads at hl
      split at hl <;> simp_all
    exact Action.nodup_columnNames files (hmps path files s hc)
  | _ => exact List.nodup_nil

/-- Two columns of one name. -/
def twins : Problem Float where
  columns := [Column.continuous "x", Column.continuous "x"]

/-- A name that comes up twice, but for one column. -/
def broughtUpTwice : String :=
  "ROWS\n N obj\n L row\nCOLUMNS\n x obj 1\n y row 1\n x row 1\nENDATA\n"

def afterReading : List (Action Float) :=
  [.load "x.mps" { entries := [(["x.mps"], broughtUpTwice.toUTF8)] },
    .build (.make (.create "x") .anyReal), .build (.make .createAnonymous .anyReal)]

theorem Model.names_identify_twins :
    (∃ files, ¬ ((Build.newModel 0).after [.load "x.json" files]).NamesIdentify) ∧
      ((Build.newModel 0).after afterReading).columns = 3 ∧
      ((Build.newModel 0).after afterReading).NamesIdentify := by
  have hjson : Format.ofPath "x.json" = .json := by decide
  have hmps : Format.ofPath "x.mps" = .freeMps := by decide
  obtain ⟨files, hw⟩ :
      ∃ files, ({} : Files).writeText? "x.json" twins.toJson.pretty = some files := ⟨_, rfl⟩
  have hr := Files.readText?_of_writeText? hw
  have hd : Codec.decode (Format.ofPath "x.json") twins.toJson.pretty = .ok twins := by
    rw [hjson]
    exact (Problem.decode_encode_json_eq_self (by decide +kernel)).2 (by decide +kernel)
  obtain ⟨n, hload⟩ := Call.load_of_decode (m := Build.newModel 0) rfl hr hd
  have hanswer : (Action.load "x.json" files).answer (Build.newModel 0) = .ok (.loaded ⟨0, 2⟩) :=
    Action.answer_of_ok (Call.bind_of_ok hload)
  have hfile : Problem.load "x.json" files = .ok (twins, [.loadedFile "x.json" 2 0]) := by
    rw [Problem.load_eq hr, hd]
    rfl
  have hnames : loadedNames [] ((Build.newModel 0).history [.load "x.json" files]) = ["x", "x"] := by
    simp [loadedNames, Model.history, hanswer, loads, Action.columnNames, hfile, twins,
      Column.continuous]
  obtain ⟨hiff, -⟩ := names_identify ⟨0⟩ ({} : Script Float).service {} [] [.load "x.json" files]
  obtain ⟨-, hread⟩ := names_identify ⟨0⟩ ({} : Script Float).service {} [] afterReading
  refine ⟨⟨files, fun h => ?_⟩, by decide +kernel, hread ?_⟩
  · have hnd := hiff.1 h
    rw [hnames] at hnd
    exact absurd hnd (by decide)
  · intro path files s hmem
    simp only [afterReading, history, List.mem_cons, Prod.mk.injEq, Action.load.injEq, reduceCtorEq,
      false_and, List.not_mem_nil, or_false] at hmem
    obtain ⟨⟨rfl, -⟩, -⟩ := hmem
    exact hmps

end LinearProgram
