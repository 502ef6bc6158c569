import Mathlib.Logic.Function.Basic
import LinearProgram.Proofs.MpsSections

/-! What a reader makes of the written entries of the columns: the writer goes from rows to
columns, and the reader back. -/

namespace LinearProgram.Mps

variable {p : Problem Float} {T : Nat → Terms Float}

/-- The terms of all rows once one more entry has been read. -/
def put (T : Nat → Terms Float) (column row : Nat) (x : Float) : Nat → Terms Float :=
  Function.update T row (T row ++ if x == 0 then [] else [(column, x)])

theorem put_zero (T : Nat → Terms Float) (column row : Nat) {x : Float} (hx : (x == 0) = true) :
    put T column row x = T := by
  rw [put, if_pos hx, List.append_nil, Function.update_eq_self]

/-- The terms of all rows once all entries of a column have been read. -/
def putAll (column : Nat) (T : Nat → Terms Float) (es : List (Nat × Float)) : Nat → Terms Float :=
  es.foldl (fun T e => put T column e.1 (clamp e.2)) T

theorem share_of_nil {ts : Terms Float} {column : Nat}
    (h : (ts.filter fun t => t.1 = column) = []) : share ts column = [] := by
  rw [share, h]

theorem share_of_cons {ts us : Terms Float} {column : Nat} {u : Nat × Float}
    (h : (ts.filter fun t => t.1 = column) = u :: us) :
    share ts column =
      if clamp ((u :: us).foldl (fun sum t => sum + t.2) 0) == 0 then []
      else [(column, clamp ((u :: us).foldl (fun sum t => sum + t.2) 0))] := by
  rw [share, h]

/-- Row by row, the entries of a column add its share of the row. -/
theorem putAll_filterMap (column : Nat) (rows : List (Terms Float)) (start r : Nat) :
    putAll column T ((rows.zipIdx start).filterMap fun (terms, row) =>
      match terms.filter fun t => t.1 = column with
      | [] => none
      | ts => some (row, ts.foldl (fun sum t => sum + t.2) 0)) r =
      T r ++ if start ≤ r then share (rows[r - start]?.getD []) column else [] := by
  induction rows generalizing T start with
  | nil => simp [putAll, share]
  | cons ts rows ih =>
    have hrest (h : start + 1 ≤ r) : (ts :: rows)[r - start]? = rows[r - (start + 1)]? := by
      rw [show r - start = r - (start + 1) + 1 by omega, List.getElem?_cons_succ]
    rw [List.zipIdx_cons, List.filterMap_cons]
    dsimp only
    cases hf : ts.filter fun t => t.1 = column with
    | nil =>
      dsimp only
      rw [ih]
      by_cases h : start + 1 ≤ r
      · rw [if_pos h, if_pos (Nat.le_of_succ_le h), hrest h]
      · rw [if_neg h]
        by_cases he : start = r
        · subst he
          rw [if_pos le_rfl, Nat.sub_self, List.getElem?_cons_zero, Option.getD_some,
            share_of_nil hf]
        · rw [if_neg (by omega)]
    | cons u us =>
      dsimp only
      have hcons (es : List (Nat × Float)) (e : Nat × Float) :
          putAll column T (e :: es) = putAll column (put T column e.1 (clamp e.2)) es := rfl
      rw [hcons, ih]
      by_cases h : start + 1 ≤ r
      · rw [if_pos h, if_pos (Nat.le_of_succ_le h), hrest h, put, Function.update_of_ne (by omega)]
      · rw [if_neg h]
        by_cases he : start = r
        · subst he
          rw [if_pos le_rfl, Nat.sub_self, List.getElem?_cons_zero, Option.getD_some,
            share_of_cons hf, put, Function.update_self, List.append_nil]
        · rw [if_neg (by omega), put, Function.update_of_ne (by omega)]

theorem putAll_columnEntries (p : Problem Float) (T : Nat → Terms Float) (column : Nat) :
    putAll column T (columnEntries p column) = fun r => T r ++ share (rowTerms p r) column := by
  funext r
  have h := putAll_filterMap (T := T) column (p.objective.terms :: p.constraints.map (·.terms)) 0 r
  rwa [if_pos (Nat.zero_le r), Nat.sub_zero] at h

theorem lt_of_mem_columnEntries {column r : Nat} {x : Float}
    (h : (r, x) ∈ columnEntries p column) : r < p.constraints.length + 1 := by
  obtain ⟨⟨ts, i⟩, hm, he⟩ := List.mem_filterMap.1 h
  have hi := List.snd_lt_of_mem_zipIdx hm
  rw [List.length_cons, List.length_map, Nat.add_zero] at hi
  dsimp only at he
  split at he
  · cases he
  · cases he
    exact hi

theorem gathered_succ (ts : Terms Float) (n : Nat) :
    gathered ts (n + 1) = gathered ts n ++ share ts n := by
  simp [gathered, List.range_succ]

theorem text_zero : Scalar.text (0 : Float) = "0" := by
  decide +kernel

theorem clamp_zero : clamp 0 = 0 := by
  rw [clamp, if_neg (by decide +kernel), if_neg (by decide +kernel)]

/-- A column that no row mentions is written with one zero in the objective. -/
def writtenEntries (p : Problem Float) (column : Nat) : List (Nat × Float) :=
  match columnEntries p column with
  | [] => [(0, 0)]
  | entries => entries

theorem entryLines_eq (p : Problem Float) (c : Column Float) (i : Nat) :
    entryLines p c i = (writtenEntries p i).map fun e =>
      entryLine c.name (rowName e.1) (Scalar.text e.2) := by
  unfold entryLines writtenEntries
  cases columnEntries p i with
  | nil => simp [text_zero]
  | cons e es => rfl

theorem putAll_writtenEntries (p : Problem Float) (T : Nat → Terms Float) (column : Nat) :
    putAll column T (writtenEntries p column) = fun r => T r ++ share (rowTerms p r) column := by
  rw [← putAll_columnEntries]
  unfold writtenEntries
  cases columnEntries p column with
  | nil =>
    show put T column 0 (clamp 0) = T
    exact put_zero T column 0 (by rw [clamp_zero]; decide +kernel)
  | cons e es => rfl

theorem lt_of_mem_writtenEntries {column r : Nat} {x : Float}
    (h : (r, x) ∈ writtenEntries p column) : r < p.constraints.length + 1 := by
  unfold writtenEntries at h
  split at h
  · obtain ⟨rfl, -⟩ := Prod.mk.inj (List.mem_singleton.1 h)
    exact Nat.succ_pos _
  · exact lt_of_mem_columnEntries h

def columnState (p : Problem Float) (block : Bool) (columns : Nat) (T : Nat → Terms Float) :
    State :=
  sectionState p .columns block ((p.columns.take columns).map declared) (rowsOf p T 0) (T 0)

theorem trimBy_of_forall {q : Char → Bool} {cs : List Char} (h : ∀ c ∈ cs, q c = false) :
    Text.trimBy q cs = cs := by
  have hd {ds : List Char} (h : ∀ c ∈ ds, q c = false) : ds.dropWhile q = ds := by
    cases ds with
    | nil => rfl
    | cons d ds => rw [List.dropWhile_cons_of_neg (by simp [h d List.mem_cons_self])]
  rw [Text.trimBy, hd h, hd fun c hc => h c (List.mem_reverse.1 hc), List.reverse_reverse]

theorem quote_not_mem_rowName (r : Nat) : '\'' ∉ (rowName r).toList := by
  cases r with
  | zero => decide
  | succ r =>
    rw [toList_rowName_succ, Nat.toList_repr]
    intro h
    rcases List.mem_cons.1 h with h | h
    · exact absurd h (by decide)
    · exact absurd ((Decimal.isDigits_digitChars (r + 1)).2 _ h) (by decide)

theorem isMarker_rowName (r : Nat) : State.isMarker (rowName r) = false := by
  have htrim : Text.trimBy (· = '\'') (rowName r).toList = (rowName r).toList := by
    refine trimBy_of_forall fun c hc => decide_eq_false fun he => ?_
    exact quote_not_mem_rowName r (he ▸ hc)
  rw [State.isMarker, unquoted, htrim, String.ofList_toList, decide_eq_false_iff_not]
  cases r with
  | zero => decide
  | succ r =>
    intro h
    have h := congrArg String.toList h
    rw [capital, String.toList_ofList, toList_rowName_succ, Text.upper, List.map_cons] at h
    exact absurd (List.cons.inj h).1 (by decide)

theorem target_objective {place : Place} {block : Bool} {columns : List (Column Float)}
    {rows : List (Constraint Float)} {terms : Terms Float} :
    (sectionState p place block columns rows terms).target (rowName 0) = .ok .objective :=
  rfl

theorem rowIndex?_sectionState {place : Place} {block : Bool} {columns : List (Column Float)}
    {bounds i : Nat} (hi : i < p.constraints.length) (terms : Terms Float) :
    (sectionState p place block columns (rowsOf p T bounds) terms).rowIndex? (rowName (i + 1)) =
      some i := by
  have hfind := (numbered_rowsOf p T bounds).findIdx?_eq i
  rwa [length_rowsOf, if_pos hi] at hfind

theorem target_constraint {place : Place} {block : Bool} {columns : List (Column Float)}
    {bounds i : Nat} (hi : i < p.constraints.length) (terms : Terms Float) :
    (sectionState p place block columns (rowsOf p T bounds) terms).target (rowName (i + 1)) =
      .ok (.constraint i) := by
  have hne : (sectionState p place block columns (rowsOf p T bounds) terms).objectiveRow ≠
      some (rowName (i + 1)) := by
    intro (he : some (rowName 0) = some (rowName (i + 1)))
    exact Nat.succ_ne_zero i (rowName_inj (Option.some.inj he)).symm
  rw [State.target, if_neg hne, rowIndex?_sectionState hi]

theorem rowsOf_put_zero (p : Problem Float) (T : Nat → Terms Float) (column : Nat) (x : Float) :
    rowsOf p (put T column 0 x) 0 = rowsOf p T 0 := by
  refine List.ext_getElem? fun i => ?_
  simp only [getElem?_rowsOf, put]
  rw [Function.update_of_ne (Nat.succ_ne_zero i)]

theorem rowsOf_put_succ (p : Problem Float) (T : Nat → Terms Float) (column i : Nat) {x : Float}
    (hx : (x == 0) = false) :
    rowsOf p (put T column (i + 1) x) 0 =
      (rowsOf p T 0).modify i fun c => { c with terms := c.terms ++ [(column, x)] } := by
  refine List.ext_getElem? fun j => ?_
  rw [List.getElem?_modify]
  simp only [getElem?_rowsOf, put, hx]
  by_cases h : i = j
  · subst h
    simp [Function.update_self, Function.comp_def]
  · simp only [if_neg h]
    rw [Function.update_of_ne (by omega)]
    simp

theorem addEntry_columnState {block : Bool} {columns column r : Nat} {x : Float}
    (hr : r < p.constraints.length + 1) :
    (columnState p block columns T).addEntry column (rowName r) x =
      .ok (columnState p block columns (put T column r x)) := by
  unfold State.addEntry columnState
  cases r with
  | zero =>
    rw [target_objective, rowsOf_put_zero, put, Function.update_self]
    show (if (x == 0) = true then _ else _) = _
    cases x == 0 with
    | true => simp only [if_true, List.append_nil]; rfl
    | false => rfl
  | succ i =>
    have hi := Nat.lt_of_succ_lt_succ hr
    have hzero : put T column (i + 1) x 0 = T 0 :=
      Function.update_of_ne (Nat.succ_ne_zero i).symm _ _
    rw [target_constraint hi, hzero]
    show (if (x == 0) = true then _ else _) = _
    by_cases hx : (x == 0) = true
    · rw [if_pos hx, put_zero T column (i + 1) hx]
      rfl
    · rw [if_neg hx, rowsOf_put_succ p T column i (by simpa using hx)]
      rfl

theorem columnIndex?_sectionState {place : Place} {block : Bool} {columns : List (Column Float)}
    {rows : List (Constraint Float)} {terms : Terms Float} (name : String) :
    (sectionState p place block columns rows terms).columnIndex? name =
      (columns.map (·.name)).findIdx? (· = name) := by
  rw [List.findIdx?_map]
  rfl

theorem name_declared (c : Column Float) : (declared c).name = c.name := by
  unfold declared
  split <;> rfl

theorem findIdx?_name {names : List String} (hnd : names.Nodup) {k : Nat} {name : String}
    (hk : names[k]? = some name) : names.findIdx? (· = name) = some k := by
  obtain ⟨hlt, rfl⟩ := List.getElem?_eq_some_iff.1 hk
  refine List.findIdx?_eq_some_iff_getElem.2 ⟨hlt, by simp, fun j hj he => ?_⟩
  have := (List.Nodup.getElem_inj_iff hnd).1 (by simpa using he)
  omega

theorem names_take (p : Problem Float) (k : Nat) :
    ((p.columns.take k).map declared).map (·.name) = (p.columns.map (·.name)).take k := by
  rw [List.map_map, List.map_take]
  simp only [Function.comp_def, name_declared]

theorem declareColumn_new {block : Bool} {c : Column Float} {k : Nat}
    (hnd : (p.columns.map (·.name)).Nodup) (hk : p.columns[k]? = some c)
    (hb : c.isInteger = block) :
    (columnState p block k T).declareColumn c.name = (k, columnState p block (k + 1) T) := by
  have hlt : k < p.columns.length := (List.getElem?_eq_some_iff.1 hk).1
  have hfind : ((p.columns.map (·.name)).take k).findIdx? (· = c.name) = none := by
    refine List.findIdx?_eq_none_iff.2 fun name hname => decide_eq_false fun he => ?_
    obtain ⟨i, hi, hget⟩ := List.getElem_of_mem (he ▸ hname)
    rw [List.getElem_take] at hget
    have hkname : (p.columns.map (·.name))[k]? = some c.name := by rw [List.getElem?_map, hk]; rfl
    obtain ⟨hk', hget'⟩ := List.getElem?_eq_some_iff.1 hkname
    have := (List.Nodup.getElem_inj_iff hnd).1 (hget.trans hget'.symm)
    rw [List.length_take] at hi
    omega
  have hlen : ((p.columns.take k).map declared).length = k := by
    rw [List.length_map, List.length_take]
    omega
  rw [← names_take] at hfind
  rw [State.declareColumn, columnState, columnIndex?_sectionState, hfind]
  refine Prod.ext hlen ?_
  rw [columnState, List.take_add_one, hk, List.map_append]
  subst hb
  rfl

theorem declareColumn_again {block : Bool} {c : Column Float} {k : Nat}
    (hnd : (p.columns.map (·.name)).Nodup) (hk : p.columns[k]? = some c) :
    (columnState p block (k + 1) T).declareColumn c.name = (k, columnState p block (k + 1) T) := by
  have hname : ((p.columns.map (·.name)).take (k + 1))[k]? = some c.name := by
    rw [List.getElem?_take_of_lt (Nat.lt_succ_self k), List.getElem?_map, hk]
    rfl
  have hfind := findIdx?_name (hnd.sublist (List.take_sublist (k + 1) _)) hname
  rw [← names_take] at hfind
  rw [State.declareColumn, columnState, columnIndex?_sectionState, hfind]

/-- The first line of a column declares it, and the next ones find it again. -/
theorem reads_entry {block : Bool} {name : String} {column k k' r : Nat} {x : Float}
    (hn : IsWord name) (hs : name.toList.head? ≠ some '*')
    (hd : (columnState p block k T).declareColumn name = (column, columnState p block k' T))
    (hr : r < p.constraints.length + 1) :
    (columnState p block k T).Reads [entryLine name (rowName r) (Scalar.text x)]
      (columnState p block k' (put T column r (clamp x))) := by
  have hw := wordsOf_entryLine hn (isWord_rowName r) (Decimal.isWord_text x)
  refine .line ?_
  rw [State.readLine_data hw (head?_entryLine ..) hs]
  have hread : (columnState p block k T).readData [name, rowName r, Scalar.text x] =
      .ok (columnState p block k' (put T column r (clamp x))) := by
    rw [State.readData]
    show State.readColumn _ _ = _
    rw [State.readColumn, isMarker_rowName]
    simp only [Bool.false_eq_true, if_false, hd]
    rw [State.addEntries, number_text]
    show (State.addEntry _ _ _ _ >>= _) = _
    rw [addEntry_columnState hr]
    rfl
  rw [hread]
  rfl

/-- What the writer needs of the names for a reader to find the columns again. -/
structure Named (p : Problem Float) : Prop where
  nodup : (p.columns.map (·.name)).Nodup
  isWord : ∀ c ∈ p.columns, IsWord c.name
  no_comment : ∀ c ∈ p.columns, c.name.toList.head? ≠ some '*'

theorem reads_moreEntries {block : Bool} {c : Column Float} {k : Nat} (h : Named p)
    (hk : p.columns[k]? = some c) {es : List (Nat × Float)}
    (hes : ∀ e ∈ es, e.1 < p.constraints.length + 1) :
    (columnState p block (k + 1) T).Reads
      (es.map fun e => entryLine c.name (rowName e.1) (Scalar.text e.2))
      (columnState p block (k + 1) (putAll k T es)) := by
  have hc := List.mem_of_getElem? hk
  induction es generalizing T with
  | nil => exact .nil _
  | cons e es ih =>
    have hline : (columnState p block (k + 1) T).Reads
        [entryLine c.name (rowName e.1) (Scalar.text e.2)]
        (columnState p block (k + 1) (put T k e.1 (clamp e.2))) :=
      reads_entry (h.isWord c hc) (h.no_comment c hc) (declareColumn_again h.nodup hk)
        (hes e List.mem_cons_self)
    exact hline.append (ih fun e' he' => hes e' (List.mem_cons_of_mem _ he'))

theorem reads_entryLines {block : Bool} {c : Column Float} {k : Nat} (h : Named p)
    (hk : p.columns[k]? = some c) (hb : c.isInteger = block) :
    (columnState p block k fun r => gathered (rowTerms p r) k).Reads (entryLines p c k)
      (columnState p block (k + 1) fun r => gathered (rowTerms p r) (k + 1)) := by
  have hc := List.mem_of_getElem? hk
  have hput := putAll_writtenEntries p (fun r => gathered (rowTerms p r) k) k
  simp only [← gathered_succ] at hput
  have hes : ∀ e ∈ writtenEntries p k, e.1 < p.constraints.length + 1 :=
    fun e he => lt_of_mem_writtenEntries he
  rw [entryLines_eq, ← hput]
  cases hw : writtenEntries p k with
  | nil =>
    unfold writtenEntries at hw
    split at hw
    · cases hw
    · rename_i hne
      exact absurd hw hne
  | cons e es =>
    rw [hw] at hes
    have hline := reads_entry (x := e.2) (h.isWord c hc) (h.no_comment c hc)
      (declareColumn_new (T := fun r => gathered (rowTerms p r) k) h.nodup hk hb)
      (hes e List.mem_cons_self)
    exact hline.append (reads_moreEntries h hk fun e' he' => hes e' (List.mem_cons_of_mem _ he'))

theorem reads_marker (p : Problem Float) (block : Bool) (k : Nat) (T : Nat → Terms Float) :
    (columnState p block k T).Reads [markerLine (if block then "INTEND" else "INTORG")]
      (columnState p (!block) k T) := by
  have hopen (s : State) (hs : s.place = .columns) :
      s.readLine (markerLine "INTORG").toList = .ok (.more { s with integerBlock := true }) := by
    cases s
    cases hs
    rfl
  have hclose (s : State) (hs : s.place = .columns) :
      s.readLine (markerLine "INTEND").toList = .ok (.more { s with integerBlock := false }) := by
    cases s
    cases hs
    rfl
  cases block with
  | false => exact .line (hopen _ rfl)
  | true => exact .line (hclose _ rfl)

theorem columnLinesFrom_cons (p : Problem Float) (block : Bool) (c : Column Float) (i : Nat)
    (rest : List (Column Float × Nat)) :
    columnLinesFrom p block ((c, i) :: rest) =
      (if c.isInteger = block then [] else [markerLine (if block then "INTEND" else "INTORG")]) ++
        entryLines p c i ++ columnLinesFrom p c.isInteger rest := by
  cases block <;> rfl

/-- The columns before these have been read. -/
theorem reads_columnLinesFrom (h : Named p) (block : Bool) (done todo : List (Column Float))
    (hp : p.columns = done ++ todo) :
    (columnState p block done.length fun r => gathered (rowTerms p r) done.length).Reads
      (columnLinesFrom p block (todo.zipIdx done.length))
      (columnState p false p.columns.length fun r => gathered (rowTerms p r) p.columns.length) := by
  induction todo generalizing block done with
  | nil =>
    rw [List.append_nil] at hp
    rw [← hp]
    cases block with
    | false => exact .nil _
    | true => exact reads_marker p true _ _
  | cons c todo ih =>
    have hk : p.columns[done.length]? = some c := by simp [hp]
    have hrest := ih c.isInteger (done ++ [c]) (by simp [hp])
    rw [List.length_append, List.length_singleton] at hrest
    have hc := (reads_entryLines h hk rfl).append hrest
    rw [List.zipIdx_cons, columnLinesFrom_cons, List.append_assoc]
    by_cases hb : c.isInteger = block
    · rw [if_pos hb, List.nil_append]
      exact hb ▸ hc
    · have hmarker := reads_marker p block done.length fun r => gathered (rowTerms p r) done.length
      rw [show (!block) = c.isInteger by cases block <;> simp_all] at hmarker
      rw [if_neg hb]
      exact hmarker.append hc

theorem reads_columns (h : Named p) :
    (sectionState p .rows false [] (rowsOf p (fun _ => []) 0) []).Reads (columnLines p)
      (columnState p false p.columns.length fun r => gathered (rowTerms p r) p.columns.length) := by
  have hopen (s : State) : s.readLine "COLUMNS".toList = .ok (.more { s with place := .columns }) :=
    rfl
  exact .cons (hopen _) (reads_columnLinesFrom h false [] p.columns rfl)

end LinearProgram.Mps
