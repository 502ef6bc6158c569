import LinearProgram.Proofs.MpsLines

/-! What a reader makes of the written sections of a program. -/

namespace LinearProgram.Mps

variable {p : Problem Float}

def writtenName (p : Problem Float) : String :=
  let words := (Text.words p.name.toList).map String.ofList
  if words.isEmpty then "MODEL" else "_".intercalate words

/-- The terms of a row by number, where the objective is row zero. -/
def rowTerms (p : Problem Float) (r : Nat) : Terms Float :=
  (p.objective.terms :: p.constraints.map (·.terms))[r]?.getD []

/-- What is read back of the terms of one column. -/
def share (ts : Terms Float) (column : Nat) : Terms Float :=
  match ts.filter fun t => t.1 = column with
  | [] => []
  | us =>
    let x := clamp (us.foldl (fun sum t => sum + t.2) 0)
    if x == 0 then [] else [(column, x)]

/-- What is read back of the terms of the first columns. -/
def gathered (ts : Terms Float) (columns : Nat) : Terms Float :=
  (List.range columns).flatMap (share ts)

def rereadBound (c : Constraint Float) : Float :=
  if c.bound == 0 then 0 else clamp c.bound

def declared (c : Column Float) : Column Float :=
  if c.isInteger then .integer c.name else .continuous c.name

def rereadColumn (c : Column Float) : Column Float :=
  if c.isBinary then .binary c.name
  else match c.lower, c.upper with
    | none, none => { declared c with lower := none, upper := none }
    | none, some u => { declared c with lower := none, upper := finite? (clamp u) }
    | some l, none => { declared c with lower := finite? (clamp l) }
    | some l, some u =>
      if l == u then { declared c with lower := some (clamp l), upper := some (clamp l) }
      else { declared c with lower := finite? (clamp l), upper := finite? (clamp u) }

/-- The program that a written one is read as. -/
def reread (p : Problem Float) : Problem Float where
  name := writtenName p
  objective :=
    { direction := p.objective.direction, terms := gathered p.objective.terms p.columns.length }
  constraints := p.constraints.zipIdx.map fun (c, i) =>
    { sense := c.sense, terms := gathered c.terms p.columns.length, bound := rereadBound c,
      name := rowName (i + 1) }
  columns := p.columns.map rereadColumn

/-- The constraints with the given terms and with the first right-hand sides. -/
def rowsOf (p : Problem Float) (T : Nat → Terms Float) (bounds : Nat) : List (Constraint Float) :=
  p.constraints.zipIdx.map fun (c, i) =>
    { sense := c.sense, terms := T (i + 1), bound := if i < bounds then rereadBound c else 0,
      name := rowName (i + 1) }

def startState (p : Problem Float) : State :=
  { problem := { name := writtenName p, objective := { direction := p.objective.direction } }
    place := .direction }

def sectionState (p : Problem Float) (place : Place) (block : Bool)
    (columns : List (Column Float)) (rows : List (Constraint Float)) (terms : Terms Float) : State :=
  { problem :=
      { name := writtenName p
        objective := { direction := p.objective.direction, terms }
        constraints := rows
        columns }
    objectiveRow := some "OBJ"
    integerBlock := block
    place }

def Numbered (rows : List (Constraint Float)) : Prop :=
  ∀ i r, rows[i]? = some r → r.name = rowName (i + 1)

theorem length_rowsOf (p : Problem Float) (T : Nat → Terms Float) (bounds : Nat) :
    (rowsOf p T bounds).length = p.constraints.length := by
  simp [rowsOf]

theorem getElem?_rowsOf (p : Problem Float) (T : Nat → Terms Float) (bounds i : Nat) :
    (rowsOf p T bounds)[i]? = p.constraints[i]?.map fun c =>
      { sense := c.sense, terms := T (i + 1), bound := if i < bounds then rereadBound c else 0,
        name := rowName (i + 1) } := by
  rw [rowsOf, List.getElem?_map, List.getElem?_zipIdx, Option.map_map, Nat.zero_add]
  rfl

theorem numbered_rowsOf (p : Problem Float) (T : Nat → Terms Float) (bounds : Nat) :
    Numbered (rowsOf p T bounds) := by
  intro i r hr
  rw [getElem?_rowsOf] at hr
  obtain ⟨c, -, rfl⟩ := Option.map_eq_some_iff.1 hr
  rfl

theorem Numbered.take {rows : List (Constraint Float)} (h : Numbered rows) (k : Nat) :
    Numbered (rows.take k) := by
  intro i r hr
  obtain ⟨hi, -⟩ := List.getElem?_eq_some_iff.1 hr
  rw [List.getElem?_take_of_lt (by simp at hi; omega)] at hr
  exact h i r hr

theorem Numbered.findIdx?_eq {rows : List (Constraint Float)} (h : Numbered rows) (i : Nat) :
    rows.findIdx? (fun r => r.name = rowName (i + 1)) = if i < rows.length then some i else none := by
  split
  · rename_i hi
    refine List.findIdx?_eq_some_iff_getElem.2 ⟨hi, ?_, fun j hj => ?_⟩
    · simpa using h i _ (List.getElem?_eq_getElem hi)
    · have := h j _ (List.getElem?_eq_getElem (hj.trans hi))
      intro he
      rw [this] at he
      have := rowName_inj (by simpa using he)
      omega
  · rename_i hi
    refine List.findIdx?_eq_none_iff.2 fun r hr => ?_
    obtain ⟨j, hj, rfl⟩ := List.getElem_of_mem hr
    have := h j _ (List.getElem?_eq_getElem hj)
    rw [this]
    simp only [decide_eq_false_iff_not]
    intro he
    have := rowName_inj he
    omega

theorem isWord_intercalate {sep : String} {l : List String}
    (hs : sep.toList.any Text.isBlank = false) (hl : ∀ s ∈ l, IsWord s) (hne : l ≠ []) :
    IsWord (sep.intercalate l) := by
  induction l with
  | nil => exact absurd rfl hne
  | cons s l ih =>
    have hw : IsWord s := hl s List.mem_cons_self
    cases l with
    | nil => rwa [String.intercalate_singleton]
    | cons t l =>
      have ih := ih (fun u hu => hl u (List.mem_cons_of_mem _ hu)) (List.cons_ne_nil t l)
      rw [String.intercalate_cons_cons, IsWord, String.toList_append, String.toList_append]
      refine ⟨fun he => hw.1 (List.append_eq_nil_iff.1 (List.append_eq_nil_iff.1 he).1).1,
        fun c hc => ?_⟩
      rcases List.mem_append.1 hc with hc | hc
      · rcases List.mem_append.1 hc with hc | hc
        · exact hw.2 c hc
        · simpa using List.any_eq_false.1 hs c hc
      · exact ih.2 c hc

theorem isWord_writtenName (p : Problem Float) : IsWord (writtenName p) := by
  unfold writtenName
  dsimp only
  split
  · decide
  · rename_i h
    refine isWord_intercalate (by decide) (fun s hs => ?_) (by simpa using h)
    obtain ⟨w, hw, rfl⟩ := List.mem_map.1 hs
    rw [IsWord, String.toList_ofList]
    exact Text.mem_words hw

theorem wordsOf_nameLine (p : Problem Float) :
    wordsOf ("NAME " ++ writtenName p) = ["NAME", writtenName p] := by
  rw [wordsOf, String.toList_append,
    show "NAME ".toList = "NAME".toList ++ " ".toList from rfl, List.append_assoc,
    Text.words_append (by decide) rfl,
    words_last (by decide) (isWord_writtenName p)]
  simp

theorem reads_head (p : Problem Float) : ({} : State).Reads (headLines p) (startState p) := by
  have hb : ("NAME " ++ writtenName p).toList.head?.map Text.isBlank = some false := by
    rw [String.toList_append]
    rfl
  have hname : ({} : State).readLine ("NAME " ++ writtenName p).toList =
      .ok (.more { problem := { name := writtenName p }, place := .name }) := by
    refine (State.readLine_section (wordsOf_nameLine p) hb (by decide)).trans ?_
    show Except.ok (Progress.more _) = _
    simp [State.setProblem]
  have hsense (s : State) : s.readLine "OBJSENSE".toList =
      .ok (.more { s with place := .direction }) := rfl
  refine .cons hname (.cons (hsense _) (.line ?_))
  unfold startState
  cases p.objective.direction
  · rfl
  · rfl

theorem senseLetter_spec (s : Sense) : IsWord (senseLetter s) ∧
    (senseLetter s).toList.head? ≠ some '*' ∧ ∀ (st : State) (name : String),
      st.readRow [senseLetter s, name] = st.addRow s name := by
  cases s
  · exact ⟨by decide, by decide, fun _ _ => rfl⟩
  · exact ⟨by decide, by decide, fun _ _ => rfl⟩
  · exact ⟨by decide, by decide, fun _ _ => rfl⟩

theorem addRow_sectionState {k : Nat} {c : Constraint Float} (hc : p.constraints[k]? = some c) :
    (sectionState p .rows false [] ((rowsOf p (fun _ => []) 0).take k) []).addRow c.sense
        (rowName (k + 1)) =
      .ok (sectionState p .rows false [] ((rowsOf p (fun _ => []) 0).take (k + 1)) []) := by
  have hk := (List.getElem?_eq_some_iff.1 hc).1
  have hlen : ((rowsOf p (fun _ => []) 0).take k).length = k := by
    rw [List.length_take, length_rowsOf]
    omega
  have hfind := ((numbered_rowsOf p (fun _ => []) 0).take k).findIdx?_eq k
  rw [hlen, if_neg (Nat.lt_irrefl k)] at hfind
  have hnew : (rowsOf p (fun _ => []) 0)[k]? =
      some { sense := c.sense, terms := [], bound := 0, name := rowName (k + 1) } := by
    rw [getElem?_rowsOf, hc]
    rfl
  unfold State.addRow State.rowIndex?
  rw [if_neg (by simp only [sectionState, hfind]; decide), List.take_add_one, hnew]
  rfl

theorem reads_rows (p : Problem Float) :
    (startState p).Reads (rowLines p)
      (sectionState p .rows false [] (rowsOf p (fun _ => []) 0) []) := by
  have hsteps := State.Reads.flatMap_zipIdx
    (fun c i => [" " ++ senseLetter c.sense ++ "  " ++ rowName (i + 1)]) p.constraints 0
    (S := fun k => sectionState p .rows false [] ((rowsOf p (fun _ => []) 0).take k) [])
    fun k c hc => ?_
  · rw [List.take_of_length_le (length_rowsOf p _ 0).le, ← List.map_eq_flatMap] at hsteps
    have hopen (s : State) : s.readLine "ROWS".toList = .ok (.more { s with place := .rows }) := rfl
    have hfree : State.readLine { startState p with place := .rows } " N  OBJ".toList =
        .ok (.more (sectionState p .rows false [] [] [])) := rfl
    exact .cons (hopen _) (.cons hfree hsteps)
  · obtain ⟨hl, hs, hread⟩ := senseLetter_spec c.sense
    have hhead : (" " ++ senseLetter c.sense ++ "  " ++ rowName (k + 1)).toList.head? =
        some ' ' := by
      simp only [String.toList_append]
      rfl
    simp only [Nat.zero_add]
    refine .line ?_
    rw [State.readLine_data (wordsOf_rowLine hl (isWord_rowName (k + 1))) hhead hs]
    rw [State.readData, sectionState]
    dsimp only
    rw [hread]
    exact congrArg (Progress.more <$> ·) (addRow_sectionState hc)

end LinearProgram.Mps
