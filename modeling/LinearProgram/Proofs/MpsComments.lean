import LinearProgram.Proofs.MpsRoundTrip

/-! A line that starts with an asterisk is a comment, so no line that is read declares a column
with such a name. A written program with one is refused at the bounds of that column. -/

namespace LinearProgram.Mps

theorem exists_of_bind_eq_ok {ε γ δ : Type} {x : Except ε γ} {f : γ → Except ε δ} {d : δ}
    (h : (x >>= f) = .ok d) : ∃ a, x = .ok a ∧ f a = .ok d := by
  cases x with
  | error e => cases h
  | ok a => exact ⟨a, rfl, h⟩

theorem exists_of_map_eq_ok {ε γ δ : Type} {x : Except ε γ} {f : γ → δ} {d : δ}
    (h : f <$> x = .ok d) : ∃ a, x = .ok a ∧ f a = d := by
  cases x with
  | error e => cases h
  | ok a => exact ⟨a, rfl, Except.ok.inj h⟩

theorem eq_ok_of_mem_toOption {ε γ : Type} {x : Except ε γ} {a : γ} (h : a ∈ x.toOption) :
    x = .ok a := by
  cases x with
  | error e => cases h
  | ok b => exact congrArg Except.ok (Option.some.inj h)

namespace State

def names (s : State) : List String :=
  s.problem.columns.map (·.name)

variable {s s' : State}

theorem columns_addEntry {column : Nat} {row : String} {value : Float}
    (h : s.addEntry column row value = .ok s') : s'.problem.columns = s.problem.columns := by
  obtain ⟨target, -, h⟩ := exists_of_bind_eq_ok h
  split at h
  · cases h
    rfl
  · cases target <;> cases h <;> rfl

theorem columns_addEntries {column : Nat} {words : List String}
    (h : s.addEntries column words = .ok s') : s'.problem.columns = s.problem.columns := by
  induction words using List.twoStepInduction generalizing s with
  | nil =>
    cases h
    rfl
  | singleton =>
    cases h
    rfl
  | cons_cons row word rest ih _ =>
    obtain ⟨value, -, h⟩ := exists_of_bind_eq_ok h
    obtain ⟨s₁, h₁, h⟩ := exists_of_bind_eq_ok h
    exact (ih h).trans (columns_addEntry h₁)

theorem columns_setBound {row : String} {value : Float} (h : s.setBound row value = .ok s') :
    s'.problem.columns = s.problem.columns := by
  obtain ⟨target, -, h⟩ := exists_of_bind_eq_ok h
  cases target <;> cases h <;> rfl

theorem columns_setBounds {words : List String} (h : s.setBounds words = .ok s') :
    s'.problem.columns = s.problem.columns := by
  induction words using List.twoStepInduction generalizing s with
  | nil =>
    cases h
    rfl
  | singleton =>
    cases h
    rfl
  | cons_cons row word rest ih _ =>
    obtain ⟨value, -, h⟩ := exists_of_bind_eq_ok h
    obtain ⟨s₁, h₁, h⟩ := exists_of_bind_eq_ok h
    exact (ih h).trans (columns_setBound h₁)

theorem columns_readRow {words : List String} (h : s.readRow words = .ok s') :
    s'.problem.columns = s.problem.columns := by
  unfold readRow addRow addFreeRow at h
  split at h
  · split at h <;> (try split at h) <;> cases h <;> rfl
  · cases h

theorem not_mem_names {name : String} (h : s.columnIndex? name = none) : name ∉ s.names := by
  intro hm
  obtain ⟨c, hc, rfl⟩ := List.mem_map.1 hm
  simpa using List.findIdx?_eq_none_iff.1 h c hc

theorem names_declareColumn (s : State) (name : String) :
    (s.declareColumn name).2.names = s.names ∨
      (s.declareColumn name).2.names = s.names ++ [name] := by
  unfold declareColumn
  split
  · exact .inl rfl
  · refine .inr ?_
    cases s.integerBlock <;> simp [names, setProblem, Column.integer, Column.continuous]

theorem columns_readColumn {word : String} {rest : List String}
    (h : s.readColumn (word :: rest) = .ok s') :
    s'.problem.columns = s.problem.columns ∨
      s'.problem.columns = (s.declareColumn word).2.problem.columns := by
  unfold readColumn at h
  split at h
  · rename_i name second third rest he
    obtain ⟨rfl, rfl⟩ := List.cons.inj he
    split at h
    · unfold readMarker at h
      split at h <;> cases h
      · exact .inl rfl
      · exact .inl rfl
    · split at h
      · cases h
      · exact .inr (columns_addEntries h)
  · cases h

theorem name_applyBound {kind : String} {value : Float} {c d : Column Float}
    (h : applyBound kind value c = .ok d) : d.name = c.name := by
  unfold applyBound integral at h
  split at h <;> cases h <;> (try rfl) <;> split <;> rfl

/-- A bound that is read is applied to one column. -/
theorem exists_applyBound_of_readBound {words : List String} (h : s.readBound words = .ok s') :
    ∃ name value i c d, boundOperands (capital (words.headD "")) words = .ok (name, value) ∧
      s.columnIndex? name = some i ∧ s.problem.columns[i]? = some c ∧
      applyBound (capital (words.headD "")) value c = .ok d ∧ s.modifyColumn i (fun _ => d) = s' := by
  obtain ⟨⟨name, value⟩, ho, h⟩ := exists_of_bind_eq_ok h
  dsimp only at h
  split at h
  · cases h
  · split at h
    · cases h
    · rename_i i hi _ c hc
      obtain ⟨d, hd, h⟩ := exists_of_bind_eq_ok h
      exact ⟨name, value, i, c, d, ho, hi, hc, hd, Except.ok.inj h⟩

/-- A bound that is read changes one column, but not its name. -/
theorem exists_of_readBound {words : List String} (h : s.readBound words = .ok s') :
    ∃ i c d, s.problem.columns[i]? = some c ∧ d.name = c.name ∧
      s.modifyColumn i (fun _ => d) = s' := by
  obtain ⟨_, _, i, c, d, -, -, hc, hd, hs⟩ := exists_applyBound_of_readBound h
  exact ⟨i, c, d, hc, name_applyBound hd, hs⟩

theorem names_readBound {words : List String} (h : s.readBound words = .ok s') :
    s'.names = s.names := by
  obtain ⟨i, c, d, hc, hd, rfl⟩ := exists_of_readBound h
  have hset := names_set hc hd
  rw [List.set_eq_modify] at hset
  exact hset

/-- A line of data declares the column that its first word names, or it bounds one, or it leaves
the columns as they are. -/
theorem columns_readData {word : String} {rest : List String}
    (h : s.readData (word :: rest) = .ok s') :
    s'.problem.columns = s.problem.columns ∨
      s'.problem.columns = (s.declareColumn word).2.problem.columns ∨
      s.place = .bounds ∧ s.readBound (word :: rest) = .ok s' := by
  unfold readData at h
  split at h
  · obtain ⟨d, -, rfl⟩ := exists_of_map_eq_ok h
    exact .inl rfl
  · exact .inl (columns_readRow h)
  · exact (columns_readColumn h).imp_right .inl
  · obtain ⟨pairs, hp⟩ : ∃ pairs, s.setBounds pairs = .ok s' := by
      unfold readRightHandSides at h
      grind
    exact .inl (columns_setBounds hp)
  · exact .inr (.inr ⟨‹_›, h⟩)
  · cases h
  · cases h
  · cases h

/-- A line of data adds at most the column that its first word names. -/
theorem names_readData {word : String} {rest : List String}
    (h : s.readData (word :: rest) = .ok s') :
    s'.names = s.names ∨ s'.names = s.names ++ [word] := by
  obtain hc | hc | ⟨-, h⟩ := columns_readData h
  · exact .inl (congrArg (List.map Column.name) hc)
  · rw [names, hc]
    exact names_declareColumn s word
  · exact .inl (names_readBound h)

/-- A section begins with the rows and columns that there are. -/
theorem keeps_openSection {word : String} {rest : List String}
    (h : s.openSection word rest = .ok (.more s')) :
    s'.problem.columns = s.problem.columns ∧ s'.problem.constraints = s.problem.constraints := by
  unfold openSection at h
  split at h
  · cases h
    exact ⟨rfl, rfl⟩
  · dsimp only at h
    split at h
    · obtain ⟨s₁, h₁, h⟩ := exists_of_bind_eq_ok h
      obtain ⟨d, -, rfl⟩ := exists_of_map_eq_ok h₁
      cases h
      exact ⟨rfl, rfl⟩
    · cases h
      exact ⟨rfl, rfl⟩
  all_goals cases h
  all_goals exact ⟨rfl, rfl⟩

/-- No column so far is named like a comment. -/
def NoComment (s : State) : Prop :=
  ∀ name ∈ s.names, name.toList.head? ≠ some '*'

/-- A line adds at most one column, and none that is named like a comment. -/
theorem names_readLine {line : List Char} (h : s.readLine line = .ok (.more s')) :
    s'.names = s.names ∨
      ∃ word, word.toList.head? ≠ some '*' ∧ s'.names = s.names ++ [word] := by
  unfold readLine at h
  split at h
  · cases h
    exact .inl rfl
  · split at h
    · cases h
      exact .inl rfl
    · rename_i word rest _ hword
      split at h
      · obtain ⟨s₁, h₁, h⟩ := exists_of_map_eq_ok h
        cases h
        exact (names_readData h₁).imp_right fun he => ⟨word, hword, he⟩
      · exact .inl (congrArg (List.map Column.name) (keeps_openSection h).1)

theorem NoComment.readLine (hs : s.NoComment) {line : List Char}
    (h : s.readLine line = .ok (.more s')) : s'.NoComment := by
  rcases names_readLine h with he | ⟨word, hword, he⟩
  · rwa [NoComment, he]
  · rw [NoComment, he]
    exact List.forall_mem_append.2 ⟨hs, List.forall_mem_singleton.2 hword⟩

/-- The line that ends a program leaves it as it is. -/
theorem eq_of_readLine_done {line : List Char} {q : Problem Float}
    (h : s.readLine line = .ok (.done q)) : q = s.problem := by
  unfold readLine at h
  split at h
  · cases h
  · split at h
    · cases h
    · split at h
      · obtain ⟨s₁, -, h⟩ := exists_of_map_eq_ok h
        cases h
      · unfold openSection at h
        split at h
        · cases h
        · dsimp only at h
          split at h
          · obtain ⟨s₁, -, h⟩ := exists_of_bind_eq_ok h
            cases h
          · cases h
        all_goals cases h
        rfl

/-- Such lines never end the program. -/
def Continues (line : List Char) : Prop :=
  ∀ s q, readLine s line ≠ .ok (.done q)

theorem continues_data {line : String} (h : line.toList.head? = some ' ') :
    Continues line.toList := by
  intro s q hread
  unfold readLine at hread
  split at hread
  · cases hread
  · split at hread
    · cases hread
    · rw [h, if_pos (by decide)] at hread
      obtain ⟨s₁, -, h₁⟩ := exists_of_map_eq_ok hread
      cases h₁

theorem continues_section {line word : String} {rest : List String}
    (hw : wordsOf line = word :: rest) (hend : capital word ≠ "ENDATA") :
    Continues line.toList := by
  intro s q hread
  unfold readLine at hread
  unfold wordsOf at hw
  rw [hw] at hread
  dsimp only at hread
  split at hread
  · cases hread
  · split at hread
    · obtain ⟨s₁, -, h₁⟩ := exists_of_map_eq_ok hread
      cases h₁
    · unfold openSection at hread
      split at hread
      · cases hread
      · dsimp only at hread
        split at hread
        · obtain ⟨s₁, -, h₁⟩ := exists_of_bind_eq_ok hread
          cases h₁
        · cases hread
      all_goals first | exact hend ‹_› | cases hread

theorem continues_header {word : String} (hw : wordsOf word = [word])
    (hend : capital word ≠ "ENDATA") : Continues word.toList :=
  continues_section hw hend

/-- Lines that do not end the program lead on to those after them, or to a fault. -/
theorem readLines_append {P : State → Prop} {ls : List (List Char)}
    (hc : ∀ l ∈ ls, Continues l)
    (hstep : ∀ l ∈ ls, ∀ s s', P s → readLine s l = .ok (.more s') → P s')
    (hs : P s) (n : Nat) (rest : List (List Char)) :
    (∃ e, s.readLines n (ls ++ rest) = .error e) ∨
      ∃ s' m, P s' ∧ s.readLines n (ls ++ rest) = s'.readLines m rest := by
  induction ls generalizing s n with
  | nil => exact .inr ⟨s, n, hs, rfl⟩
  | cons l ls ih =>
    rw [List.cons_append, readLines]
    cases h : readLine s l with
    | error e => exact .inl ⟨_, rfl⟩
    | ok r =>
      cases r with
      | done q => exact absurd h (hc l List.mem_cons_self s q)
      | more s₁ =>
        exact ih (fun l hl => hc l (List.mem_cons_of_mem _ hl))
          (fun l hl => hstep l (List.mem_cons_of_mem _ hl))
          (hstep l List.mem_cons_self s s₁ hs h) (n + 1)

/-- Data of the bounds leaves them open. -/
theorem place_readLine {line : String} (hl : line.toList.head? = some ' ') (hs : s.place = .bounds)
    (h : s.readLine line.toList = .ok (.more s')) : s'.place = .bounds := by
  unfold readLine at h
  split at h
  · cases h
    exact hs
  · split at h
    · cases h
      exact hs
    · rw [hl, if_pos (by decide)] at h
      obtain ⟨s₁, h₁, h⟩ := exists_of_map_eq_ok h
      cases h
      rw [readData, hs] at h₁
      obtain ⟨i, c, d, -, -, rfl⟩ := exists_of_readBound h₁
      exact hs

theorem NoComment.columnIndex? (hs : s.NoComment) {name : String}
    (hn : name.toList.head? = some '*') : s.columnIndex? name = none := by
  refine List.findIdx?_eq_none_iff.2 fun c hc => decide_eq_false fun he => ?_
  exact hs c.name (List.mem_map_of_mem hc) (he ▸ hn)

theorem NoComment.readLine_bound (hs : s.NoComment) (hp : s.place = .bounds)
    {line kind name : String} {rest : List String} {value : Float}
    (hw : wordsOf line = kind :: rest) (hl : line.toList.head? = some ' ')
    (hk : kind.toList.head? ≠ some '*') (hn : name.toList.head? = some '*')
    (ho : boundOperands (capital kind) (kind :: rest) = .ok (name, value)) :
    s.readLine line.toList = .error (.unknownColumn name) := by
  rw [readLine_data hw hl hk, readData, hp]
  show Progress.more <$> s.readBound (kind :: rest) = _
  rw [readBound, List.headD_cons, ho, ok_bind]
  dsimp only
  rw [hs.columnIndex? hn]
  rfl

end State

variable {p : Problem Float}

theorem continues_columnLinesFrom (block : Bool) (todo : List (Column Float × Nat)) :
    ∀ l ∈ columnLinesFrom p block todo, State.Continues l.toList := by
  have hmarker (b : Bool) :
      State.Continues (markerLine (if b then "INTEND" else "INTORG")).toList := by
    cases b <;> exact State.continues_data rfl
  induction todo generalizing block with
  | nil =>
    cases block with
    | false => exact List.forall_mem_nil _
    | true => exact List.forall_mem_singleton.2 (hmarker true)
  | cons c todo ih =>
    obtain ⟨c, i⟩ := c
    rw [columnLinesFrom_cons, entryLines_eq]
    intro l hl
    rcases List.mem_append.1 hl with hl | hl
    · rcases List.mem_append.1 hl with hl | hl
      · split at hl
        · exact absurd hl List.not_mem_nil
        · obtain rfl := List.mem_singleton.1 hl
          exact hmarker block
      · obtain ⟨e, -, rfl⟩ := List.mem_map.1 hl
        exact State.continues_data (head?_entryLine ..)
    · exact ih c.isInteger l hl

theorem continues_beforeBounds (p : Problem Float) :
    ∀ l ∈ headLines p ++ rowLines p ++ columnLines p ++ rightHandSideLines p,
      State.Continues l.toList := by
  have hhead : ∀ l ∈ headLines p, State.Continues l.toList := by
    refine List.forall_mem_cons.2 ⟨State.continues_section (wordsOf_nameLine p) (by decide),
      List.forall_mem_cons.2
        ⟨State.continues_header (by decide) (by decide), ?_⟩⟩
    cases p.objective.direction <;>
      exact List.forall_mem_singleton.2 (State.continues_data (by decide))
  have hrows : ∀ l ∈ rowLines p, State.Continues l.toList := by
    refine List.forall_mem_cons.2
      ⟨State.continues_header (by decide) (by decide),
        List.forall_mem_cons.2 ⟨State.continues_data (by decide), fun l hl => ?_⟩⟩
    obtain ⟨⟨c, i⟩, -, rfl⟩ := List.mem_map.1 hl
    refine State.continues_data ?_
    simp only [String.toList_append]
    rfl
  have hcolumns : ∀ l ∈ columnLines p, State.Continues l.toList :=
    List.forall_mem_cons.2
      ⟨State.continues_header (by decide) (by decide),
        continues_columnLinesFrom false _⟩
  have hsides : ∀ l ∈ rightHandSideLines p, State.Continues l.toList := by
    refine List.forall_mem_cons.2
      ⟨State.continues_header (by decide) (by decide),
        fun l hl => ?_⟩
    obtain ⟨⟨c, i⟩, -, he⟩ := List.mem_filterMap.1 hl
    dsimp only at he
    split at he
    · cases he
    · cases he
      exact State.continues_data (head?_entryLine ..)
  intro l hl
  simp only [List.mem_append] at hl
  rcases hl with ((hl | hl) | hl) | hl
  · exact hhead l hl
  · exact hrows l hl
  · exact hcolumns l hl
  · exact hsides l hl

theorem head?_columnBoundLines (c : Column Float) :
    ∀ l ∈ columnBoundLines c, l.toList.head? = some ' ' := by
  unfold columnBoundLines
  split
  · exact List.forall_mem_singleton.2 (head?_boundLine ..)
  · split
    · exact List.forall_mem_singleton.2 (head?_boundLine ..)
    · exact List.forall_mem_cons.2 ⟨head?_boundLine ..,
        List.forall_mem_singleton.2 (head?_valueLine ..)⟩
    · exact List.forall_mem_singleton.2 (head?_valueLine ..)
    · split
      · exact List.forall_mem_singleton.2 (head?_valueLine ..)
      · exact List.forall_mem_cons.2 ⟨head?_valueLine ..,
          List.forall_mem_singleton.2 (head?_valueLine ..)⟩

theorem readLine_columnBoundLines {c : Column Float} (hw : IsWord c.name)
    (hn : c.name.toList.head? = some '*') :
    ∃ l ls, columnBoundLines c = l :: ls ∧ ∀ s : State, s.NoComment → s.place = .bounds →
      s.readLine l.toList = .error (.unknownColumn c.name) := by
  have hbound (kind : String) (hk : IsKind kind) (hv : valueless kind = true) (s : State)
      (hs : s.NoComment) (hp : s.place = .bounds) :
      s.readLine (boundLine kind c.name).toList = .error (.unknownColumn c.name) :=
    hs.readLine_bound hp (wordsOf_boundLine hk.isWord hw) (head?_boundLine ..) hk.no_comment hn
      (hk.boundOperands_boundLine hv c.name)
  have hvalue (kind : String) (hk : IsKind kind) (hv : valueless kind = false) (x : Float)
      (s : State) (hs : s.NoComment) (hp : s.place = .bounds) :
      s.readLine (valueLine kind c.name x).toList = .error (.unknownColumn c.name) :=
    hs.readLine_bound hp (wordsOf_valueLine hk.isWord hw x) (head?_valueLine ..) hk.no_comment hn
      (hk.boundOperands_valueLine hv c.name x)
  unfold columnBoundLines
  split
  · exact ⟨_, _, rfl, hbound "BV" isKind_bv (by decide)⟩
  · split
    · exact ⟨_, _, rfl, hbound "FR" isKind_fr (by decide)⟩
    · exact ⟨_, _, rfl, hbound "MI" isKind_mi (by decide)⟩
    · exact ⟨_, _, rfl, hvalue "LO" isKind_lo (by decide) _⟩
    · split
      · exact ⟨_, _, rfl, hvalue "FX" isKind_fx (by decide) _⟩
      · exact ⟨_, _, rfl, hvalue "LO" isKind_lo (by decide) _⟩

/-- A written program is refused where the name of a column starts with an asterisk. -/
theorem read_write_comment {text : String} (hw : write p = .ok text) {c : Column Float}
    (hc : c ∈ p.columns) (hn : c.name.toList.head? = some '*') : ∃ e, read text = .error e := by
  obtain ⟨before, after, hp⟩ := List.append_of_mem hc
  obtain ⟨l, ls, hl, hline⟩ := readLine_columnBoundLines (isWord_of_write hw c hc) hn
  let head := headLines p ++ rowLines p ++ columnLines p ++ rightHandSideLines p
  let bounds := before.flatMap columnBoundLines
  let rest := (ls ++ after.flatMap columnBoundLines ++ ["ENDATA"]).map String.toList
  have hall : (allLines p).map String.toList =
      head.map String.toList ++ ("BOUNDS".toList :: (bounds.map String.toList ++ l.toList :: rest)) := by
    simp [allLines, boundLines, head, bounds, rest, hp, hl]
  have hbounds : ∀ l ∈ bounds, l.toList.head? = some ' ' := by
    intro l hl
    obtain ⟨d, -, hd⟩ := List.mem_flatMap.1 hl
    exact head?_columnBoundLines d l hd
  rw [read_of_write hw, hall]
  -- the header of the bounds is reached with no such column declared, or reading ends before it
  have hstart : State.NoComment {} := List.forall_mem_nil _
  rcases State.readLines_append (P := State.NoComment)
    (List.forall_mem_map.2 (continues_beforeBounds p)) (fun _ _ _ _ hs h => hs.readLine h) hstart 0
      ("BOUNDS".toList :: (bounds.map String.toList ++ l.toList :: rest)) with he | ⟨s, m, hs, he⟩
  · exact he
  rw [he]
  -- within the bounds, the first line of the column looks for a name that is not there
  let opened : State := { s with place := .bounds }
  have hopened : opened.NoComment ∧ opened.place = .bounds := ⟨hs, rfl⟩
  show ∃ e, opened.readLines (m + 1) _ = .error e
  rcases State.readLines_append (P := fun s => s.NoComment ∧ s.place = .bounds)
    (List.forall_mem_map.2 fun l hl => State.continues_data (hbounds l hl))
    (List.forall_mem_map.2 fun l hl s s' hs h =>
      ⟨hs.1.readLine h, State.place_readLine (hbounds l hl) hs.2 h⟩)
    hopened (m + 1) (l.toList :: rest) with he | ⟨s, m, hs, he⟩
  · exact he
  rw [he, State.readLines, hline s hs.1 hs.2]
  exact ⟨_, rfl⟩

end LinearProgram.Mps
