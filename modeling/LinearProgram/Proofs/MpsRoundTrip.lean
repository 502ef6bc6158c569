import LinearProgram.Proofs.MpsColumns

/-! A written program is read back, whatever its numbers are. -/

namespace LinearProgram.Mps

variable {p : Problem Float}

def rightHandSideState (p : Problem Float) (bounds : Nat) : State :=
  sectionState p .rightHandSides false (p.columns.map declared)
    (rowsOf p (fun r => gathered (rowTerms p r) p.columns.length) bounds)
    (gathered p.objective.terms p.columns.length)

theorem rowsOf_succ_of_zero {T : Nat → Terms Float} {k : Nat} {c : Constraint Float}
    (hk : p.constraints[k]? = some c) (hz : (c.bound == 0) = true) :
    rowsOf p T (k + 1) = rowsOf p T k := by
  have hc : rereadBound c = 0 := by rw [rereadBound, if_pos hz]
  refine List.ext_getElem? fun i => ?_
  rw [getElem?_rowsOf, getElem?_rowsOf]
  by_cases h : i = k
  · subst h
    rw [hk]
    simp [hc]
  · simp only [show i < k + 1 ↔ i < k by omega]

theorem rowsOf_succ_of_ne_zero {T : Nat → Terms Float} {k : Nat} {c : Constraint Float}
    (hk : p.constraints[k]? = some c) (hz : (c.bound == 0) = false) :
    rowsOf p T (k + 1) = (rowsOf p T k).modify k fun d => { d with bound := clamp c.bound } := by
  have hc : rereadBound c = clamp c.bound := by
    rw [rereadBound, hz]
    rfl
  refine List.ext_getElem? fun i => ?_
  rw [List.getElem?_modify, getElem?_rowsOf, getElem?_rowsOf]
  by_cases h : k = i
  · subst h
    rw [hk]
    simp [hc]
  · simp only [if_neg h, show i < k + 1 ↔ i < k by omega]
    simp

theorem reads_rightHandSide {k : Nat} {c : Constraint Float} (hk : p.constraints[k]? = some c) :
    (rightHandSideState p k).Reads
      (if c.bound == 0 then none
        else some (entryLine "RHS" (rowName (k + 1)) (Scalar.text c.bound))).toList
      (rightHandSideState p (k + 1)) := by
  have hlt : k < p.constraints.length := (List.getElem?_eq_some_iff.1 hk).1
  by_cases hz : (c.bound == 0) = true
  · rw [if_pos hz, rightHandSideState, ← rowsOf_succ_of_zero hk hz]
    exact .nil _
  · rw [if_neg hz]
    have hw : wordsOf (entryLine "RHS" (rowName (k + 1)) (Scalar.text c.bound)) =
        ["RHS", rowName (k + 1), Scalar.text c.bound] :=
      wordsOf_entryLine (by decide) (isWord_rowName _) (Decimal.isWord_text c.bound)
    have hread : (rightHandSideState p k).readData ["RHS", rowName (k + 1), Scalar.text c.bound] =
        .ok (rightHandSideState p (k + 1)) := by
      have hset (s : State) (row word : String) :
          s.readRightHandSides ["RHS", row, word] = s.setBounds [row, word] := by
        simp [State.readRightHandSides]
      rw [State.readData]
      show State.readRightHandSides _ _ = _
      rw [hset, State.setBounds, number_text]
      show (State.setBound _ _ _ >>= _) = _
      rw [State.setBound, rightHandSideState, target_constraint hlt, rightHandSideState,
        rowsOf_succ_of_ne_zero hk (by simpa using hz)]
      rfl
    refine .line ?_
    rw [State.readLine_data hw (head?_entryLine ..) (by decide), hread]
    rfl

theorem reads_rightHandSides (p : Problem Float) :
    (columnState p false p.columns.length fun r => gathered (rowTerms p r) p.columns.length).Reads
      (rightHandSideLines p) (rightHandSideState p p.constraints.length) := by
  have hopen (s : State) :
      s.readLine "RHS".toList = .ok (.more { s with place := .rightHandSides }) := rfl
  have hsteps : (rightHandSideState p 0).Reads _ _ :=
    State.Reads.flatMap_zipIdx _ p.constraints 0 (S := rightHandSideState p) fun k c hk => by
      rw [Nat.zero_add]
      exact reads_rightHandSide hk
  rw [columnState, List.take_length]
  refine .cons (hopen _) ?_
  rw [List.filterMap_eq_flatMap_toList]
  exact hsteps

def boundState (p : Problem Float) (columns : List (Column Float)) : State :=
  sectionState p .bounds false columns
    (rowsOf p (fun r => gathered (rowTerms p r) p.columns.length) p.constraints.length)
    (gathered p.objective.terms p.columns.length)

theorem columnIndex?_boundState {columns : List (Column Float)} {k : Nat} {d : Column Float}
    (hnd : (columns.map (·.name)).Nodup) (hk : columns[k]? = some d) :
    (boundState p columns).columnIndex? d.name = some k := by
  have hname : (columns.map (·.name))[k]? = some d.name := by
    rw [List.getElem?_map, hk]
    rfl
  rw [boundState, columnIndex?_sectionState]
  exact findIdx?_name hnd hname

theorem readBound_boundState {columns : List (Column Float)} {k : Nat} {d d' : Column Float}
    {words : List String} {value : Float} (hnd : (columns.map (·.name)).Nodup)
    (hk : columns[k]? = some d)
    (ho : boundOperands (capital (words.headD "")) words = .ok (d.name, value))
    (hd : applyBound (capital (words.headD "")) value d = .ok d') :
    (boundState p columns).readBound words = .ok (boundState p (columns.set k d')) := by
  have hmod : columns.modify k (fun _ => d') = columns.set k d' := by
    rw [List.set_eq_modify]
  have hcolumn : (boundState p columns).problem.columns[k]? = some d := hk
  rw [State.readBound, ho, ok_bind]
  dsimp only
  rw [columnIndex?_boundState hnd hk]
  dsimp only
  rw [hcolumn]
  dsimp only
  rw [hd, ok_bind, ← hmod]
  rfl

/-- A kind of bound as the writer writes it. -/
structure IsKind (kind : String) : Prop where
  isWord : IsWord kind
  no_comment : kind.toList.head? ≠ some '*'
  capital : capital kind = kind

theorem IsKind.boundOperands_boundLine {kind : String} (h : IsKind kind)
    (hv : valueless kind = true) (name : String) :
    boundOperands (Mps.capital kind) [kind, "BND", name] = .ok (name, 0) := by
  rw [h.capital]
  show (if valueless kind = true then _ else _) = _
  rw [if_pos hv]

theorem IsKind.boundOperands_valueLine {kind : String} (h : IsKind kind)
    (hv : valueless kind = false) (name : String) (value : Float) :
    boundOperands (Mps.capital kind) [kind, "BND", name, Scalar.text value] =
      .ok (name, clamp value) := by
  rw [h.capital]
  show (if valueless kind = true then _ else _) = _
  rw [hv, number_text]
  rfl

theorem isKind_bv : IsKind "BV" := ⟨by decide, by decide, by decide⟩

theorem isKind_fr : IsKind "FR" := ⟨by decide, by decide, by decide⟩

theorem isKind_mi : IsKind "MI" := ⟨by decide, by decide, by decide⟩

theorem isKind_up : IsKind "UP" := ⟨by decide, by decide, by decide⟩

theorem isKind_lo : IsKind "LO" := ⟨by decide, by decide, by decide⟩

theorem isKind_fx : IsKind "FX" := ⟨by decide, by decide, by decide⟩

theorem reads_boundLine {columns : List (Column Float)} {k : Nat} {d d' : Column Float}
    {kind : String} (hnd : (columns.map (·.name)).Nodup) (hk : columns[k]? = some d)
    (hw : IsWord d.name) (hkind : IsKind kind) (hv : valueless kind = true)
    (hd : applyBound kind 0 d = .ok d') :
    (boundState p columns).Reads [boundLine kind d.name] (boundState p (columns.set k d')) := by
  have hwords := wordsOf_boundLine hkind.isWord hw
  have ho := hkind.boundOperands_boundLine hv d.name
  have hread : (boundState p columns).readData [kind, "BND", d.name] =
      .ok (boundState p (columns.set k d')) := by
    rw [State.readData]
    exact readBound_boundState hnd hk ho (hkind.capital.symm ▸ hd)
  refine .line ?_
  rw [State.readLine_data hwords (head?_boundLine ..) hkind.no_comment, hread]
  rfl

theorem reads_valueLine {columns : List (Column Float)} {k : Nat} {d d' : Column Float}
    {kind : String} (hnd : (columns.map (·.name)).Nodup) (hk : columns[k]? = some d)
    (hw : IsWord d.name) (hkind : IsKind kind) (value : Float)
    (hv : valueless kind = false) (hd : applyBound kind (clamp value) d = .ok d') :
    (boundState p columns).Reads [valueLine kind d.name value]
      (boundState p (columns.set k d')) := by
  have hwords := wordsOf_valueLine hkind.isWord hw value
  have ho := hkind.boundOperands_valueLine hv d.name value
  have hread : (boundState p columns).readData [kind, "BND", d.name, Scalar.text value] =
      .ok (boundState p (columns.set k d')) := by
    rw [State.readData]
    exact readBound_boundState hnd hk ho (hkind.capital.symm ▸ hd)
  refine .line ?_
  rw [State.readLine_data hwords (head?_valueLine ..) hkind.no_comment, hread]
  rfl

/-- The columns of which the bounds have been read, and the other ones. -/
def columnsRead (p : Problem Float) (k : Nat) : List (Column Float) :=
  (p.columns.take k).map rereadColumn ++ (p.columns.drop k).map declared

theorem name_rereadColumn (c : Column Float) : (rereadColumn c).name = c.name := by
  unfold rereadColumn
  split
  · rfl
  · split
    · exact name_declared c
    · exact name_declared c
    · exact name_declared c
    · split <;> exact name_declared c

theorem names_columnsRead (p : Problem Float) (k : Nat) :
    (columnsRead p k).map (·.name) = p.columns.map (·.name) := by
  rw [columnsRead, List.map_append, List.map_map, List.map_map]
  simp only [Function.comp_def, name_declared, name_rereadColumn]
  rw [← List.map_append, List.take_append_drop]

theorem getElem?_columnsRead {k : Nat} {c : Column Float} (hk : p.columns[k]? = some c) :
    (columnsRead p k)[k]? = some (declared c) := by
  have hlt : k < p.columns.length := (List.getElem?_eq_some_iff.1 hk).1
  have hlen : ((p.columns.take k).map rereadColumn).length = k := by
    rw [List.length_map, List.length_take]
    omega
  rw [columnsRead, List.getElem?_append_right hlen.le, hlen, Nat.sub_self, List.getElem?_map,
    List.getElem?_drop, Nat.add_zero, hk]
  rfl

theorem columnsRead_succ {k : Nat} {c : Column Float} (hk : p.columns[k]? = some c) :
    (columnsRead p k).set k (rereadColumn c) = columnsRead p (k + 1) := by
  have hlt : k < p.columns.length := (List.getElem?_eq_some_iff.1 hk).1
  have hlen : ((p.columns.take k).map rereadColumn).length = k := by
    rw [List.length_map, List.length_take]
    omega
  have hdrop : p.columns.drop k = c :: p.columns.drop (k + 1) := by
    rw [List.drop_eq_getElem_cons hlt, (List.getElem?_eq_some_iff.1 hk).2]
  rw [columnsRead, columnsRead, hdrop, List.map_cons, List.set_append_right _ _ hlen.le, hlen,
    Nat.sub_self, List.set_cons_zero, List.take_add_one, hk, List.map_append, List.append_assoc]
  rfl

theorem names_set {columns : List (Column Float)} {k : Nat} {d d' : Column Float}
    (hk : columns[k]? = some d) (hd : d'.name = d.name) :
    (columns.set k d').map (·.name) = columns.map (·.name) := by
  obtain ⟨hlt, rfl⟩ := List.getElem?_eq_some_iff.1 hk
  refine List.ext_getElem (by simp) fun i hi hi' => ?_
  rw [List.getElem_map, List.getElem_map, List.getElem_set]
  split
  · rename_i he
    subst he
    exact hd
  · rfl

theorem reads_columnBoundLines (h : Named p) {k : Nat} {c : Column Float}
    (hk : p.columns[k]? = some c) :
    (boundState p (columnsRead p k)).Reads (columnBoundLines c)
      (boundState p (columnsRead p (k + 1))) := by
  have hnd : ((columnsRead p k).map (·.name)).Nodup := by
    rw [names_columnsRead]
    exact h.nodup
  have hget := getElem?_columnsRead hk
  have hw : IsWord (declared c).name := by
    rw [name_declared]
    exact h.isWord c (List.mem_of_getElem? hk)
  -- after a first line, the same column is found again
  have hset (d : Column Float) (hd : d.name = (declared c).name) :
      (((columnsRead p k).set k d).map (·.name)).Nodup ∧
        ((columnsRead p k).set k d)[k]? = some d := by
    rw [names_set hget hd]
    exact ⟨hnd, List.getElem?_set_self (List.getElem?_eq_some_iff.1 hget).1⟩
  rw [← columnsRead_succ hk]
  unfold columnBoundLines rereadColumn
  rw [← name_declared c]
  split
  · exact reads_boundLine hnd hget hw isKind_bv (by decide) rfl
  · cases c.lower with
    | none =>
      cases c.upper with
      | none => exact reads_boundLine hnd hget hw isKind_fr (by decide) rfl
      | some u =>
        obtain ⟨hnd', hget'⟩ := hset { declared c with lower := none } rfl
        have hlower := reads_boundLine (p := p) hnd hget hw isKind_mi (by decide) rfl
        have hupper := reads_valueLine (p := p) hnd' hget' hw isKind_up u (by decide) rfl
        rw [List.set_set] at hupper
        exact hlower.append hupper
    | some l =>
      cases c.upper with
      | none => exact reads_valueLine hnd hget hw isKind_lo l (by decide) rfl
      | some u =>
        dsimp only
        split
        · exact reads_valueLine hnd hget hw isKind_fx l (by decide) rfl
        · obtain ⟨hnd', hget'⟩ := hset { declared c with lower := finite? (clamp l) } rfl
          have hlower := reads_valueLine (p := p) hnd hget hw isKind_lo l (by decide) rfl
          have hupper := reads_valueLine (p := p) hnd' hget' hw isKind_up u (by decide) rfl
          rw [List.set_set] at hupper
          exact hlower.append hupper

theorem reads_bounds (h : Named p) :
    (rightHandSideState p p.constraints.length).Reads (boundLines p)
      (boundState p (p.columns.map rereadColumn)) := by
  have hopen (s : State) : s.readLine "BOUNDS".toList = .ok (.more { s with place := .bounds }) :=
    rfl
  have hsteps := State.Reads.flatMap columnBoundLines p.columns
    (S := fun k => boundState p (columnsRead p k)) fun k c hk => reads_columnBoundLines h hk
  have hlast : columnsRead p p.columns.length = p.columns.map rereadColumn := by
    rw [columnsRead, List.take_length, List.drop_length, List.map_nil, List.append_nil]
  rw [hlast] at hsteps
  exact .cons (hopen _) hsteps

theorem reads_allLines (h : Named p) :
    ({} : State).Reads
      (headLines p ++ rowLines p ++ columnLines p ++ rightHandSideLines p ++ boundLines p)
      (boundState p (p.columns.map rereadColumn)) :=
  ((((reads_head p).append (reads_rows p)).append (reads_columns h)).append
    (reads_rightHandSides p)).append (reads_bounds h)

theorem problem_boundState (p : Problem Float) :
    (boundState p (p.columns.map rereadColumn)).problem = reread p := by
  have hrows : rowsOf p (fun r => gathered (rowTerms p r) p.columns.length) p.constraints.length =
      (reread p).constraints := by
    refine List.ext_getElem? fun i => ?_
    rw [getElem?_rowsOf, reread, List.getElem?_map, List.getElem?_zipIdx, Option.map_map,
      Nat.zero_add]
    cases hi : p.constraints[i]? with
    | none => rfl
    | some c =>
      have hlt : i < p.constraints.length := (List.getElem?_eq_some_iff.1 hi).1
      have hterms : rowTerms p (i + 1) = c.terms := by
        rw [rowTerms, List.getElem?_cons_succ, List.getElem?_map, hi]
        rfl
      simp only [Option.map_some, if_pos hlt, hterms, Function.comp_apply]
  show Problem.mk _ _ _ _ _ = _
  rw [hrows]
  rfl

/-- No line of the text is broken. -/
def IsLine (s : String) : Prop :=
  '\n' ∉ s.toList

instance (s : String) : Decidable (IsLine s) :=
  inferInstanceAs (Decidable ('\n' ∉ s.toList))

theorem IsLine.append {s t : String} (hs : IsLine s) (ht : IsLine t) : IsLine (s ++ t) := by
  rw [IsLine, String.toList_append]
  exact fun h => (List.mem_append.1 h).elim hs ht

theorem IsWord.isLine {s : String} (h : IsWord s) : IsLine s :=
  Text.IsWord.newline_not_mem h

theorem isLine_entryLine {name row value : String} (hn : IsLine name) (hr : IsLine row)
    (hv : IsLine value) : IsLine (entryLine name row value) := by
  have hgap : IsLine "  " := by decide
  have hstart : IsLine "    " := by decide
  exact ((((hstart.append hn).append hgap).append hr).append hgap).append hv

theorem isLine_boundLine {kind name : String} (hk : IsLine kind) (hn : IsLine name) :
    IsLine (boundLine kind name) := by
  have hstart : IsLine " " := by decide
  have hset : IsLine " BND  " := by decide
  exact ((hstart.append hk).append hset).append hn

theorem isLine_text (x : Float) : IsLine (Scalar.text x) :=
  Text.IsWord.newline_not_mem (Decimal.isWord_text x)

theorem isLine_headLines (p : Problem Float) : ∀ l ∈ headLines p, IsLine l := by
  have hname : IsLine ("NAME " ++ writtenName p) :=
    IsLine.append (by decide) (isWord_writtenName p).isLine
  have hmax : IsLine "    MAX" := by decide
  have hmin : IsLine "    MIN" := by decide
  refine List.forall_mem_cons.2 ⟨hname, List.forall_mem_cons.2 ⟨by decide, ?_⟩⟩
  cases p.objective.direction
  · exact List.forall_mem_singleton.2 hmin
  · exact List.forall_mem_singleton.2 hmax

theorem isLine_rowLines (p : Problem Float) : ∀ l ∈ rowLines p, IsLine l := by
  intro l hl
  rcases List.mem_cons.1 hl with rfl | hl
  · decide
  · rcases List.mem_cons.1 hl with rfl | hl
    · decide
    · obtain ⟨⟨c, i⟩, -, rfl⟩ := List.mem_map.1 hl
      have hletter := (senseLetter_spec c.sense).1.isLine
      have hgap : IsLine " " ∧ IsLine "  " := by decide
      exact ((hgap.1.append hletter).append hgap.2).append (isWord_rowName (i + 1)).isLine

theorem isLine_columnLinesFrom (block : Bool) {todo : List (Column Float × Nat)}
    (h : ∀ c ∈ todo, IsWord c.1.name) : ∀ l ∈ columnLinesFrom p block todo, IsLine l := by
  have hmarker (b : Bool) : IsLine (markerLine (if b then "INTEND" else "INTORG")) := by
    cases b <;> decide
  induction todo generalizing block with
  | nil =>
    cases block with
    | false => exact List.forall_mem_nil _
    | true => exact List.forall_mem_singleton.2 (hmarker true)
  | cons c todo ih =>
    obtain ⟨c, i⟩ := c
    have hc : IsLine c.name := (h (c, i) List.mem_cons_self).isLine
    rw [columnLinesFrom_cons, entryLines_eq]
    intro l hl
    rcases List.mem_append.1 hl with hl | hl
    · rcases List.mem_append.1 hl with hl | hl
      · split at hl
        · exact absurd hl List.not_mem_nil
        · obtain rfl := List.mem_singleton.1 hl
          exact hmarker block
      · obtain ⟨e, -, rfl⟩ := List.mem_map.1 hl
        exact isLine_entryLine hc (isWord_rowName e.1).isLine (isLine_text e.2)
    · exact ih c.isInteger (fun d hd => h d (List.mem_cons_of_mem _ hd)) l hl

theorem isLine_rightHandSideLines (p : Problem Float) : ∀ l ∈ rightHandSideLines p, IsLine l := by
  intro l hl
  rcases List.mem_cons.1 hl with rfl | hl
  · decide
  · obtain ⟨⟨c, i⟩, -, he⟩ := List.mem_filterMap.1 hl
    dsimp only at he
    split at he
    · cases he
    · cases he
      exact isLine_entryLine (by decide) (isWord_rowName (i + 1)).isLine (isLine_text c.bound)

theorem isLine_columnBoundLines {c : Column Float} (hc : IsLine c.name) :
    ∀ l ∈ columnBoundLines c, IsLine l := by
  have hbound (kind : String) (hk : IsLine kind) : IsLine (boundLine kind c.name) :=
    isLine_boundLine hk hc
  have hvalue (kind : String) (hk : IsLine kind) (x : Float) : IsLine (valueLine kind c.name x) := by
    have hgap : IsLine "  " := by decide
    exact ((hbound kind hk).append hgap).append (isLine_text x)
  unfold columnBoundLines
  split
  · exact List.forall_mem_singleton.2 (hbound _ (by decide))
  · split
    · exact List.forall_mem_singleton.2 (hbound _ (by decide))
    · exact List.forall_mem_cons.2 ⟨hbound _ (by decide),
        List.forall_mem_singleton.2 (hvalue _ (by decide) _)⟩
    · exact List.forall_mem_singleton.2 (hvalue _ (by decide) _)
    · split
      · exact List.forall_mem_singleton.2 (hvalue _ (by decide) _)
      · exact List.forall_mem_cons.2 ⟨hvalue _ (by decide) _,
          List.forall_mem_singleton.2 (hvalue _ (by decide) _)⟩

theorem isLine_allLines (h : ∀ c ∈ p.columns, IsWord c.name) : ∀ l ∈ allLines p, IsLine l := by
  have hcolumns : ∀ l ∈ columnLines p, IsLine l :=
    List.forall_mem_cons.2 ⟨by decide, isLine_columnLinesFrom false fun c hc =>
      h c.1 (List.fst_mem_of_mem_zipIdx hc)⟩
  have hbounds : ∀ l ∈ boundLines p, IsLine l := by
    refine List.forall_mem_cons.2 ⟨by decide, fun l hl => ?_⟩
    obtain ⟨c, hc, hl⟩ := List.mem_flatMap.1 hl
    exact isLine_columnBoundLines (h c hc).isLine l hl
  intro l hl
  simp only [allLines, List.mem_append, List.mem_singleton] at hl
  rcases hl with ((((hl | hl) | hl) | hl) | hl) | rfl
  · exact isLine_headLines p l hl
  · exact isLine_rowLines p l hl
  · exact hcolumns l hl
  · exact isLine_rightHandSideLines p l hl
  · exact hbounds l hl
  · decide

theorem lines_written {ls : List String} (h : ∀ l ∈ ls, IsLine l) :
    Text.lines (String.join (ls.map (· ++ "\n"))).toList = ls.map String.toList := by
  have hsplit := Text.lines_flatMap (ls.map String.toList) fun l hl => by
    obtain ⟨s, hs, rfl⟩ := List.mem_map.1 hl
    exact h s hs
  rw [List.flatMap_map] at hsplit
  rw [String.toList_join, List.flatMap_map]
  simp only [String.toList_append]
  exact hsplit

theorem isWord_of_write {text : String} (hw : write p = .ok text) :
    ∀ c ∈ p.columns, IsWord c.name := by
  intro c hc
  have hfind : p.columns.find? (fun c => !isWritableName c.name) = none := by
    unfold write obstacle? at hw
    cases hf : p.columns.find? fun c => !isWritableName c.name with
    | none => rfl
    | some d =>
      rw [hf] at hw
      cases hw
  exact isWord_of_isWritableName (by simpa using List.find?_eq_none.1 hfind c hc)

theorem read_of_write {text : String} (hw : write p = .ok text) :
    read text = State.readLines {} 0 ((allLines p).map String.toList) := by
  have hlines := lines_written (isLine_allLines (isWord_of_write hw))
  have htext : text = String.join ((allLines p).map (· ++ "\n")) := by
    unfold write at hw
    split at hw
    · cases hw
    · exact (Except.ok.inj hw).symm
  rw [read, htext, hlines]

/-- A written program is read as the same one, up to its terms and to what stands for infinity. -/
theorem read_write {text : String} (h : Named p) (hw : write p = .ok text) :
    read text = .ok (reread p) := by
  have hreads := reads_allLines h 0 ["ENDATA".toList]
  rw [read_of_write hw, allLines, List.map_append, List.map_singleton, hreads,
    ← problem_boundState]
  rfl

end LinearProgram.Mps
