import LinearProgram.Proofs.MpsCredits
import LinearProgram.Proofs.MpsTables

/-! The states of the reader. Each is what the statements so far add up to, so a program that is
read is what its file adds up to. -/

namespace LinearProgram.Mps

/-- Changing the only item with a key is changing all items with it. -/
theorem modify_eq_map {γ : Type} {key : γ → String} {l : List γ} {name : String} {i : Nat}
    (hi : l.findIdx? (fun a => key a = name) = some i) (hn : (l.map key).Nodup) (f : γ → γ) :
    l.modify i f = l.map fun a => if key a = name then f a else a := by
  induction l generalizing i with
  | nil => simp at hi
  | cons a l ih =>
    obtain ⟨ha, hl⟩ := List.nodup_cons.1 hn
    rw [List.findIdx?_cons] at hi
    by_cases hk : key a = name
    · have hothers : ∀ b ∈ l, (if key b = name then f b else b) = b := fun b hb =>
        if_neg fun hb' => ha (List.mem_map.2 ⟨b, hb, hb'.trans hk.symm⟩)
      rw [if_pos (decide_eq_true hk)] at hi
      obtain rfl := Option.some.inj hi
      rw [List.modify_zero_cons, List.map_cons, if_pos hk, List.map_congr_left hothers,
        List.map_id']
    · rw [if_neg (by simpa using hk)] at hi
      obtain ⟨j, hj, rfl⟩ := Option.map_eq_some_iff.1 hi
      rw [List.modify_succ_cons, ih hj hl, List.map_cons, if_neg hk]

namespace State

open Stated

/-- What a state holds beside its rows and columns. -/
structure Header where
  title : String
  direction : Direction
  objectiveRow : Option String
  freeRows : List String
  insideBlock : Bool
  config : Config Float

def header (s : State) : Header where
  title := s.problem.name
  direction := s.problem.objective.direction
  objectiveRow := s.objectiveRow
  freeRows := s.freeRows
  insideBlock := s.integerBlock
  config := s.problem.config

def headerOf (fs : List Statement) : Header where
  title := title fs
  direction := direction fs
  objectiveRow := (freeRowNames fs).head?
  freeRows := (freeRowNames fs).tail.reverse
  insideBlock := insideBlock fs
  config := {}

def Header.after (h : Header) : Statement → Header
  | .title name => { h with title := name }
  | .direction d => { h with direction := d }
  | .freeRow name =>
    if h.objectiveRow.isNone then { h with objectiveRow := some name }
    else { h with freeRows := name :: h.freeRows }
  | .marker opens => { h with insideBlock := opens }
  | _ => h

structure RowsAfter (fs : List Statement) (s : State) : Prop where
  objective : s.problem.objective.terms = objectiveTerms fs
  constraints : s.problem.constraints = (rows fs).map (constraintOf fs)
  distinct : (constraintNames fs).Nodup

structure ColumnsAfter (fs : List Statement) (s : State) : Prop where
  names : s.names = columnNames fs
  columns : ∀ c ∈ s.problem.columns, columnOf fs c.name = c

/-- The state that statements lead to, in whatever section. -/
structure After (fs : List Statement) (s : State) : Prop where
  header : s.header = headerOf fs
  rows : s.RowsAfter fs
  columns : s.ColumnsAfter fs
  sound : Sound fs

variable {fs : List Statement} {x : Statement} {s s' : State}

theorem headerOf_concat (fs : List Statement) (x : Statement) :
    headerOf (fs ++ [x]) = (headerOf fs).after x := by
  simp only [headerOf, title, direction, insideBlock, freeRowNames, filterMap_concat]
  cases x with
  | freeRow name =>
    cases fs.filterMap Statement.freeRow? with
    | nil | cons =>
      simp [Header.after, Statement.title?, Statement.direction?, Statement.marker?,
        Statement.freeRow?]
  | _ =>
    simp [Header.after, Statement.title?, Statement.direction?, Statement.marker?,
      Statement.freeRow?]

theorem header_addFreeRow (s : State) (name : String) :
    (s.addFreeRow name).header = s.header.after (.freeRow name) := by
  unfold addFreeRow
  by_cases h : s.objectiveRow.isNone = true <;> simp [header, Header.after, h]

theorem keeps_addFreeRow (s : State) (name : String) :
    (s.addFreeRow name).problem = s.problem := by
  unfold addFreeRow
  split <;> rfl

theorem keeps_addRow {sense : Sense} {name : String} (h : s.addRow sense name = .ok s') :
    s'.header = s.header ∧ s'.problem.columns = s.problem.columns := by
  unfold State.addRow at h
  split at h
  · cases h
  · cases h
    exact ⟨rfl, rfl⟩

theorem keeps_declareColumn (s : State) (name : String) :
    (s.declareColumn name).2.header = s.header ∧
      (s.declareColumn name).2.problem.objective = s.problem.objective ∧
      (s.declareColumn name).2.problem.constraints = s.problem.constraints := by
  unfold State.declareColumn
  split <;> exact ⟨rfl, rfl, rfl⟩

theorem exists_of_perform_bound {column : String} {b : StatedBound}
    (h : s.perform (.bound column b) = .ok s') :
    ∃ i, s.columnIndex? column = some i ∧ s.modifyColumn i b.impose = s' := by
  unfold State.perform at h
  dsimp only at h
  split at h
  · cases h
  · exact ⟨_, ‹_›, Except.ok.inj h⟩

theorem place_addEntry {column : Nat} {row : String} {value : Float}
    (h : s.addEntry column row value = .ok s') : s'.place = s.place := by
  obtain ⟨target, -, h⟩ := exists_of_bind_eq_ok h
  split at h
  · cases h
    rfl
  · cases target <;> cases h <;> rfl

theorem place_perform (h : s.perform x = .ok s') : s'.place = s.place := by
  cases x with
  | title | direction | marker =>
    cases h
    rfl
  | freeRow name =>
    cases h
    unfold addFreeRow
    split <;> rfl
  | row sense name =>
    unfold State.perform State.addRow at h
    dsimp only at h
    split at h <;> cases h
    rfl
  | column name =>
    cases h
    unfold State.declareColumn
    split <;> rfl
  | entry column row value =>
    unfold State.perform at h
    dsimp only at h
    split at h
    · cases h
    · exact place_addEntry h
  | rightHandSide row value =>
    obtain ⟨target, -, h⟩ := exists_of_bind_eq_ok h
    cases target <;> cases h <;> rfl
  | bound column b =>
    obtain ⟨i, -, rfl⟩ := exists_of_perform_bound h
    rfl

theorem place_performAll {later : List Statement} (h : s.performAll later = .ok s') :
    s'.place = s.place := by
  induction later generalizing s with
  | nil =>
    cases h
    rfl
  | cons x later ih =>
    rw [performAll, List.foldlM_cons] at h
    obtain ⟨s₁, h₁, h⟩ := exists_of_bind_eq_ok h
    exact (ih h).trans (place_perform h₁)

namespace RowsAfter

theorem credit (h : s.RowsAfter fs) (hx : x.row? = none)
    (ho : s'.problem.objective.terms =
      s.problem.objective.terms ++ (term? toObjective fs x).toList)
    (hc : s'.problem.constraints = s.problem.constraints.map (Stated.credit fs x)) :
    s'.RowsAfter (fs ++ [x]) := by
  have hrows : Stated.rows (fs ++ [x]) = Stated.rows fs := by simp [Stated.rows, hx]
  refine ⟨?_, ?_, ?_⟩
  · rw [ho, h.objective, objectiveTerms, objectiveTerms, gather_concat]
  · rw [hc, h.constraints, hrows, List.map_map]
    exact List.map_congr_left fun r _ => (constraintOf_concat fs x r).symm
  · rw [constraintNames, hrows]
    exact h.distinct

theorem keep (h : s.RowsAfter fs) (hx : x.row? = none)
    (ht : ∀ goes, term? goes fs x = none) (hs : ∀ goes, side? goes fs x = none)
    (ho : s'.problem.objective.terms = s.problem.objective.terms)
    (hc : s'.problem.constraints = s.problem.constraints) : s'.RowsAfter (fs ++ [x]) := by
  refine h.credit hx ?_ ?_
  · simp [ho, ht]
  · rw [hc, map_credit_of_forall (credit_of_none ht hs)]

theorem names (h : s.RowsAfter fs) : s.rowNames = constraintNames fs := by
  rw [rowNames, h.constraints, List.map_map]
  rfl

theorem addRow (h : s.RowsAfter fs) {sense : Sense} {name : String}
    (hr : s.addRow sense name = .ok s') : s'.RowsAfter (fs ++ [.row sense name]) := by
  unfold State.addRow at hr
  split at hr
  · cases hr
  · rename_i hnew
    cases hr
    have hname : name ∉ constraintNames fs := by
      rw [← h.names]
      intro hm
      obtain ⟨c, hc, rfl⟩ := List.mem_map.1 hm
      exact hnew (by simpa [State.rowIndex?] using ⟨c, hc, rfl⟩)
    have hrows : Stated.rows (fs ++ [.row sense name]) = Stated.rows fs ++ [(sense, name)] := by
      simp [Stated.rows, Statement.row?]
    have hkeep (r : Sense × String) :
        constraintOf (fs ++ [.row sense name]) r = constraintOf fs r :=
      (constraintOf_concat ..).trans (credit_of_none (fun _ => rfl) (fun _ => rfl) _)
    refine ⟨?_, ?_, ?_⟩
    · rw [objectiveTerms, gather_concat]
      exact h.objective.trans (List.append_nil _).symm
    · rw [hrows, List.map_append, List.map_singleton, hkeep, constraintOf_of_not_mem hname,
        List.map_congr_left fun r _ => hkeep r, ← h.constraints]
      rfl
    · rw [constraintNames, hrows, List.map_append, List.map_singleton, ← List.concat_eq_append]
      exact h.distinct.concat hname

end RowsAfter

namespace ColumnsAfter

theorem keep (h : s.ColumnsAfter fs) (hx : x.column? = none)
    (hb : ∀ name, x.boundOn? name = none) (hc : s'.problem.columns = s.problem.columns) :
    s'.ColumnsAfter (fs ++ [x]) := by
  refine ⟨?_, fun c hmem => ?_⟩
  · rw [State.names, hc, ← State.names, h.names, columnNames_concat, hx]
    simp
  · rw [hc] at hmem
    have hname : c.name ∈ columnNames fs := h.names ▸ List.mem_map_of_mem hmem
    rw [columnOf_concat hname, h.columns c hmem, hb]
    rfl

/-- Every column that is declared for the first time has no bounds yet. -/
theorem columnOf_of_not_mem (hs : Sound fs) {name : String} (hn : name ∉ columnNames fs) :
    columnOf (fs ++ [.column name]) name =
      if insideBlock fs then .integer name else .continuous name := by
  have hnone : fs.filterMap (Statement.boundOn? name) = [] := by
    refine List.filterMap_eq_nil_iff.2 fun x hx => ?_
    obtain ⟨earlier, later, rfl⟩ := List.append_of_mem hx
    have hrefers := hs earlier x (by simp)
    cases x with
    | bound column b =>
      have hne : column ≠ name := by
        rintro rfl
        obtain ⟨y, hy, hcolumn⟩ := mem_columnNames.1 hrefers
        exact hn (mem_columnNames.2 ⟨y, List.mem_append_left _ hy, hcolumn⟩)
      exact if_neg hne
    | _ => rfl
  rw [columnOf, declaredInside_column hn, boundsOn, List.filterMap_append, hnone]
  exact StatedBound.column_nil ..

theorem declareColumn (h : s.ColumnsAfter fs) (hs : Sound fs)
    (hblock : s.integerBlock = insideBlock fs) (name : String) :
    (s.declareColumn name).2.ColumnsAfter (fs ++ [.column name]) := by
  have hkeep {c : Column Float} (hc : c ∈ s.problem.columns) :
      columnOf (fs ++ [.column name]) c.name = c := by
    rw [columnOf_concat (h.names ▸ List.mem_map_of_mem hc), h.columns c hc]
    rfl
  have hnames := columnNames_concat fs (.column name)
  unfold State.declareColumn
  cases hi : s.columnIndex? name with
  | some i =>
    obtain ⟨hlt, hfound, -⟩ := List.findIdx?_eq_some_iff_getElem.1 hi
    have hmem : name ∈ columnNames fs := by
      rw [← h.names, ← of_decide_eq_true hfound]
      exact List.mem_map_of_mem (List.getElem_mem hlt)
    refine ⟨?_, fun c hc => hkeep hc⟩
    rw [hnames, h.names]
    simp [Statement.column?, hmem]
  | none =>
    have hmem : name ∉ columnNames fs := h.names ▸ not_mem_names hi
    have hnew := columnOf_of_not_mem hs hmem
    have hadd {c : Column Float} (hc : c.name = name)
        (hnew : columnOf (fs ++ [.column name]) name = c) :
        (s.setProblem fun p => { p with columns := p.columns ++ [c] }).ColumnsAfter
          (fs ++ [.column name]) := by
      refine ⟨?_, List.forall_mem_append.2 ⟨fun c hc => hkeep hc, ?_⟩⟩
      · have hold : (s.setProblem fun p => { p with columns := p.columns ++ [c] }).names =
            s.names ++ [c.name] := List.map_append
        rw [hold, hnames, h.names, hc]
        simp [Statement.column?, hmem]
      · exact List.forall_mem_singleton.2 (hc ▸ hnew)
    rw [← hblock] at hnew
    cases hb : s.integerBlock with
    | true => exact hadd rfl (by rw [hnew, hb])
    | false => exact hadd rfl (by rw [hnew, hb])

/-- The column that a bound names is the only one that it changes. -/
theorem setBound (h : s.ColumnsAfter fs) {name : String} {b : StatedBound} {i : Nat}
    (hi : s.columnIndex? name = some i) :
    (s.modifyColumn i b.impose).ColumnsAfter (fs ++ [.bound name b]) := by
  have hnodup : s.names.Nodup := h.names.symm ▸ nodup_columnNames fs
  have hmap : (s.modifyColumn i b.impose).problem.columns =
      s.problem.columns.map fun c => if c.name = name then b.impose c else c :=
    modify_eq_map hi hnodup b.impose
  have hname (c : Column Float) : (if c.name = name then b.impose c else c).name = c.name := by
    split <;> rfl
  refine ⟨?_, fun d hd => ?_⟩
  · rw [columnNames_concat, ← h.names, State.names, hmap, List.map_map]
    exact (List.map_congr_left fun c _ => hname c).trans (List.append_nil _).symm
  · rw [hmap] at hd
    obtain ⟨c, hc, rfl⟩ := List.mem_map.1 hd
    have hmem : c.name ∈ columnNames fs := h.names ▸ List.mem_map_of_mem hc
    rw [hname, columnOf_concat hmem, h.columns c hc]
    by_cases hn : c.name = name
    · simp [Statement.boundOn?, hn]
    · simp [Statement.boundOn?, hn, Ne.symm hn]

end ColumnsAfter

/-- What the target of a name says of it. -/
def Goes (fs : List Statement) (s : State) (row : String) : Target → Prop
  | .objective => toObjective fs row = true
  | .constraint i => toObjective fs row = false ∧ s.rowIndex? row = some i
  | .nothing => toObjective fs row = false ∧ row ∉ constraintNames fs

namespace After

theorem start : After [] {} where
  header := rfl
  rows := ⟨rfl, rfl, List.nodup_nil⟩
  columns := ⟨rfl, List.forall_mem_nil _⟩
  sound := Sound.nil

theorem enter (h : s.After fs) (place : Place) : { s with place }.After fs :=
  { header := h.header, rows := { h.rows with }, columns := { h.columns with }, sound := h.sound }

theorem objectiveRow (h : s.After fs) : s.objectiveRow = (freeRowNames fs).head? :=
  congrArg Header.objectiveRow h.header

theorem freeRows (h : s.After fs) : s.freeRows = (freeRowNames fs).tail.reverse :=
  congrArg Header.freeRows h.header

/-- A name that is looked up among the rows has been declared. -/
theorem mem_rowNames (h : s.After fs) {row : String} {t : Target} (ht : s.target row = .ok t) :
    row ∈ Stated.rowNames fs := by
  refine Stated.mem_rowNames.2 ?_
  unfold target at ht
  split at ht
  · rename_i hobjective
    rw [h.objectiveRow] at hobjective
    exact .inl (List.mem_of_mem_head? hobjective)
  · split at ht
    · rename_i i hi
      obtain ⟨hlt, hfound, -⟩ := List.findIdx?_eq_some_iff_getElem.1 hi
      have hmem : row ∈ s.rowNames :=
        of_decide_eq_true hfound ▸ List.mem_map_of_mem (List.getElem_mem hlt)
      exact .inr (h.rows.names ▸ hmem)
    · split at ht
      · rename_i hfree
        rw [h.freeRows, List.contains_iff_mem, List.mem_reverse] at hfree
        exact .inl (List.mem_of_mem_tail hfree)
      · cases ht

/-- Where a name leads is where it is credited. -/
theorem goes (h : s.After fs) {row : String} {t : Target} (ht : s.target row = .ok t) :
    Goes fs s row t := by
  have hobjective : s.objectiveRow = some row ↔ toObjective fs row = true := by
    rw [h.objectiveRow]
    exact toObjective_eq.symm
  unfold target at ht
  by_cases hrow : s.objectiveRow = some row
  · rw [if_pos hrow] at ht
    cases ht
    exact hobjective.1 hrow
  · rw [if_neg hrow] at ht
    have hrow : toObjective fs row = false := by simpa [hobjective] using hrow
    cases hi : s.rowIndex? row with
    | some i =>
      rw [hi] at ht
      cases ht
      exact ⟨hrow, hi⟩
    | none =>
      rw [hi] at ht
      dsimp only at ht
      split at ht
      · cases ht
        refine ⟨hrow, ?_⟩
        rw [← h.rows.names]
        intro hm
        obtain ⟨c, hc, rfl⟩ := List.mem_map.1 hm
        simpa using List.findIdx?_eq_none_iff.1 hi c hc
      · cases ht

theorem header_concat (h : s.After fs) (hs : s'.header = s.header.after x) :
    s'.header = headerOf (fs ++ [x]) := by
  rw [hs, h.header, headerOf_concat]

theorem header_credit (hx : x.IsCredit) (h : Header) : h.after x = h := by
  cases x with
  | entry | rightHandSide => rfl
  | _ => exact hx.elim

theorem credit (h : s.After fs) (hx : x.IsCredit) (hr : Refers fs x)
    (hheader : s'.header = s.header) (hcolumns : s'.problem.columns = s.problem.columns)
    (ho : s'.problem.objective.terms =
      s.problem.objective.terms ++ (term? toObjective fs x).toList)
    (hc : s'.problem.constraints = s.problem.constraints.map (Stated.credit fs x)) :
    s'.After (fs ++ [x]) := by
  cases x with
  | entry | rightHandSide =>
    exact
      { header := h.header_concat (hheader.trans (header_credit hx s.header).symm)
        rows := h.rows.credit rfl ho hc
        columns := h.columns.keep rfl (fun _ => rfl) hcolumns
        sound := h.sound.concat hr }
  | _ => exact hx.elim

theorem mem_columnNames (h : s.After fs) {column : String} {i : Nat}
    (hi : s.columnIndex? column = some i) :
    column ∈ columnNames fs ∧ (columnNames fs).idxOf column = i := by
  rw [columnIndex?_eq_findIdx?, h.columns.names] at hi
  obtain ⟨hlt, hfound, -⟩ := List.findIdx?_eq_some_iff_getElem.1 hi
  obtain rfl := of_decide_eq_true hfound
  exact ⟨List.getElem_mem hlt, (nodup_columnNames fs).idxOf_getElem i hlt⟩

theorem modifyConstraint (h : s.After fs) {row : String} {i : Nat}
    (hi : s.rowIndex? row = some i) (f : Constraint Float → Constraint Float) :
    (s.modifyConstraint i f).problem.constraints =
      s.problem.constraints.map fun c => if c.name = row then f c else c := by
  have hnodup : s.rowNames.Nodup := h.rows.names.symm ▸ h.rows.distinct
  exact modify_eq_map hi hnodup f

theorem mem_constraintNames (h : s.After fs) {row : String} {i : Nat}
    (hi : s.rowIndex? row = some i) : row ∈ constraintNames fs := by
  rw [rowIndex?_eq_findIdx?, h.rows.names] at hi
  obtain ⟨hlt, hfound, -⟩ := List.findIdx?_eq_some_iff_getElem.1 hi
  exact of_decide_eq_true hfound ▸ List.getElem_mem hlt

theorem addEntry (h : s.After fs) {column row : String} {i : Nat} {value : Float}
    (hi : s.columnIndex? column = some i) (hr : s.addEntry i row value = .ok s') :
    s'.After (fs ++ [.entry column row value]) := by
  obtain ⟨hcolumn, hidx⟩ := h.mem_columnNames hi
  obtain ⟨t, ht, hr⟩ := exists_of_bind_eq_ok hr
  have hrefers : Refers fs (.entry column row value) := ⟨hcolumn, h.mem_rowNames ht⟩
  have hgoes := h.goes ht
  by_cases hz : (value == 0) = true
  · rw [if_pos hz] at hr
    cases hr
    refine h.credit trivial hrefers rfl rfl (by simp [term?, hz]) ?_
    exact (map_credit_of_forall (fun c => by simp [credit_entry, hz]) _).symm
  · rw [if_neg hz] at hr
    have hz : (value == 0) = false := by simpa using hz
    cases t with
    | objective =>
      have hgoes : toObjective fs row = true := hgoes
      cases hr
      refine h.credit trivial hrefers rfl rfl ?_ ?_
      · simp [addObjectiveTerm, setProblem, term?, hgoes, hz, hidx]
      · exact (map_credit_of_forall (fun c => by simp [credit_entry, toConstraint, hgoes]) _).symm
    | constraint j =>
      obtain ⟨hnot, hj⟩ := hgoes
      cases hr
      refine h.credit trivial hrefers rfl rfl ?_ ?_
      · simp [State.modifyConstraint, setProblem, term?, hnot]
      · rw [h.modifyConstraint hj]
        refine List.map_congr_left fun c _ => ?_
        by_cases hc : c.name = row
        · simp [credit_entry, toConstraint, hnot, h.mem_constraintNames hj, hc, hz, hidx]
        · simp [credit_entry, toConstraint, hc, Ne.symm hc]
    | nothing =>
      obtain ⟨hnot, hnone⟩ := hgoes
      cases hr
      refine h.credit trivial hrefers rfl rfl (by simp [term?, hnot]) ?_
      exact (map_credit_of_forall (fun c => by simp [credit_entry, toConstraint, hnone]) _).symm

theorem setBound (h : s.After fs) {row : String} {value : Float}
    (hr : s.setBound row value = .ok s') : s'.After (fs ++ [.rightHandSide row value]) := by
  obtain ⟨t, ht, hr⟩ := exists_of_bind_eq_ok hr
  have hrefers : Refers fs (.rightHandSide row value) := h.mem_rowNames ht
  have hgoes := h.goes ht
  cases t with
  | objective =>
    have hgoes : toObjective fs row = true := hgoes
    cases hr
    refine h.credit trivial hrefers rfl rfl (List.append_nil _).symm ?_
    have hsame (c : Constraint Float) :
        Stated.credit fs (.rightHandSide row value) c = c := by
      simp [credit_rightHandSide, toConstraint, hgoes]
    exact (map_credit_of_forall hsame _).symm
  | constraint j =>
    obtain ⟨hnot, hj⟩ := hgoes
    cases hr
    refine h.credit trivial hrefers rfl rfl (List.append_nil _).symm ?_
    rw [h.modifyConstraint hj]
    refine List.map_congr_left fun c _ => ?_
    by_cases hc : c.name = row
    · simp [credit_rightHandSide, toConstraint, hnot, h.mem_constraintNames hj, hc]
    · simp [credit_rightHandSide, toConstraint, hc, Ne.symm hc]
  | nothing =>
    obtain ⟨hnot, hnone⟩ := hgoes
    cases hr
    refine h.credit trivial hrefers rfl rfl (List.append_nil _).symm ?_
    have hsame (c : Constraint Float) :
        Stated.credit fs (.rightHandSide row value) c = c := by
      simp [credit_rightHandSide, toConstraint, hnone]
    exact (map_credit_of_forall hsame _).symm

theorem perform (h : s.After fs) (hp : s.perform x = .ok s') : s'.After (fs ++ [x]) := by
  cases x with
  | title | direction | marker =>
    cases hp
    exact
      { header := h.header_concat rfl
        rows := h.rows.keep rfl (fun _ => rfl) (fun _ => rfl) rfl rfl
        columns := h.columns.keep rfl (fun _ => rfl) rfl
        sound := h.sound.concat trivial }
  | freeRow name =>
    cases hp
    have hkeep := keeps_addFreeRow s name
    exact
      { header := h.header_concat (header_addFreeRow s name)
        rows := h.rows.keep rfl (fun _ => rfl) (fun _ => rfl) (by rw [hkeep]) (by rw [hkeep])
        columns := h.columns.keep rfl (fun _ => rfl) (by rw [hkeep])
        sound := h.sound.concat trivial }
  | row sense name =>
    obtain ⟨hheader, hcolumns⟩ := keeps_addRow hp
    exact
      { header := h.header_concat hheader
        rows := h.rows.addRow hp
        columns := h.columns.keep rfl (fun _ => rfl) hcolumns
        sound := h.sound.concat trivial }
  | column name =>
    cases hp
    obtain ⟨hheader, hobjective, hconstraints⟩ := keeps_declareColumn s name
    have hblock : s.integerBlock = insideBlock fs := congrArg Header.insideBlock h.header
    exact
      { header := h.header_concat hheader
        rows := h.rows.keep rfl (fun _ => rfl) (fun _ => rfl) (by rw [hobjective]) hconstraints
        columns := h.columns.declareColumn h.sound hblock name
        sound := h.sound.concat trivial }
  | entry column row value =>
    rw [State.perform] at hp
    cases hi : s.columnIndex? column with
    | none =>
      rw [hi] at hp
      cases hp
    | some i =>
      rw [hi] at hp
      exact h.addEntry hi hp
  | rightHandSide row value => exact h.setBound hp
  | bound column b =>
    obtain ⟨i, hi, rfl⟩ := exists_of_perform_bound hp
    exact
      { header := h.header_concat rfl
        rows := h.rows.keep rfl (fun _ => rfl) (fun _ => rfl) rfl rfl
        columns := h.columns.setBound hi
        sound := h.sound.concat (h.mem_columnNames hi).1 }

theorem performAll (h : s.After fs) {later : List Statement} (hp : s.performAll later = .ok s') :
    s'.After (fs ++ later) := by
  induction later generalizing s fs with
  | nil =>
    cases hp
    rwa [List.append_nil]
  | cons x later ih =>
    rw [State.performAll, List.foldlM_cons] at hp
    obtain ⟨s₁, h₁, hp⟩ := exists_of_bind_eq_ok hp
    rw [← List.singleton_append, ← List.append_assoc]
    exact ih (h.perform h₁) hp

theorem readAs (h : s.After fs) {l : Line} (hr : s.readAs l = .ok (.more s')) :
    s'.After (fs ++ l.statements s.place) ∧ s'.place = l.placeAfter s.place := by
  obtain ⟨s₁, h₁, rfl⟩ := performAll_of_readAs hr
  refine ⟨(h.performAll h₁).enter _, ?_⟩
  rw [place_performAll h₁]

/-- A program that is read is what its lines state, up to the line that ends it. -/
theorem readAll (h : s.After fs) {n : Nat} {ls : List Line} {p : Problem Float}
    (hr : s.readAll n ls = .ok p) :
    ∃ s' : State, s'.After (fs ++ statementsFrom s.place ls) ∧ s'.problem = p := by
  induction ls generalizing s fs n with
  | nil => cases hr
  | cons l ls ih =>
    rw [State.readAll] at hr
    rw [statementsFrom]
    cases hl : s.readAs l with
    | error fault =>
      rw [hl] at hr
      cases hr
    | ok r =>
      rw [hl] at hr
      cases r with
      | done q =>
        obtain rfl : q = p := Except.ok.inj hr
        have hend := isEnd_of_readAs_done hl
        rw [readAs_of_isEnd hend] at hl
        rw [if_pos hend, List.append_nil]
        exact ⟨s, h, Progress.done.inj (Except.ok.inj hl)⟩
      | more s₁ =>
        have hmore : ¬ l.isEnd = true := by
          intro hend
          rw [readAs_of_isEnd hend] at hl
          cases hl
        obtain ⟨h₁, hplace⟩ := h.readAs hl
        rw [if_neg hmore, ← List.append_assoc, ← hplace]
        exact ih h₁ hr

end After

end State

theorem after_of_read {text : String} {p : Problem Float} (hr : read text = .ok p) :
    ∃ s : State, s.After (statements text) ∧ s.problem = p := by
  rw [read_eq] at hr
  exact State.After.start.readAll hr

end LinearProgram.Mps
