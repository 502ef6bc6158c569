import LinearProgram.Proofs.MpsStatements

/-! The first line that cannot be read decides what is wrong with a file, and the line that ends a
program is the last one that is read. Later lines have no part in either. -/

namespace LinearProgram.Mps

/-- Whatever fault is met has the property. -/
def Faults {γ : Type} (P : Fault → Prop) (x : Except Fault γ) : Prop :=
  ∀ e, x = .error e → P e

namespace Faults

variable {P : Fault → Prop} {γ δ : Type}

theorem ok (a : γ) : Faults P (.ok a) :=
  nofun

theorem error {e : Fault} (h : P e) : Faults P (.error e : Except Fault γ) :=
  fun _ he => Except.error.inj he ▸ h

theorem bind {x : Except Fault γ} {f : γ → Except Fault δ} (hx : Faults P x)
    (hf : ∀ a, Faults P (f a)) : Faults P (x >>= f) := by
  cases x with
  | error e => exact error (hx e rfl)
  | ok a => exact hf a

theorem map {x : Except Fault γ} (hx : Faults P x) (f : γ → δ) : Faults P (f <$> x) := by
  cases x with
  | error e => exact error (hx e rfl)
  | ok a => exact ok (f a)

/-- A missing end is no fault of a line, and only the line of a row finds a duplicate. -/
def OfLine (e : Fault) : Prop :=
  e ≠ .missingEnd ∧ ∀ name, e ≠ .duplicateRow name

variable (hP : ∀ e, OfLine e → P e)
include hP

theorem number (word : String) : Faults P (number word) := by
  cases hx : Decimal.readFloat? word with
  | none =>
    rw [Mps.number, hx]
    exact error (hP _ (by simp [OfLine]))
  | some x =>
    rw [Mps.number, hx]
    dsimp only
    split
    · exact ok _
    · split
      · exact ok _
      · exact ok _

theorem directionOf (word : String) : Faults P (directionOf word) := by
  unfold Mps.directionOf
  dsimp only
  split
  · exact ok _
  · split
    · exact ok _
    · exact error (hP _ (by simp [OfLine]))

theorem target (s : State) (row : String) : Faults P (s.target row) := by
  unfold State.target
  split
  · exact ok _
  · split
    · exact ok _
    · split
      · exact ok _
      · exact error (hP _ (by simp [OfLine]))

theorem readRow {s : State} {words : List String}
    (hrow : ∀ sense name, rowStatements words = [.row sense name] →
      (s.rowIndex? name).isSome = true → P (.duplicateRow name)) :
    Faults P (s.readRow words) := by
  have hadd {sense : Sense} {name : String} (hwords : rowStatements words = [.row sense name]) :
      Faults P (s.addRow sense name) := by
    unfold State.addRow
    split
    · exact error (hrow sense name hwords ‹_›)
    · exact ok _
  unfold State.readRow
  split
  · rename_i kind name
    unfold rowStatements at hadd
    dsimp only at hadd
    generalize capital kind = letter at hadd ⊢
    split
    · exact ok _
    · exact hadd rfl
    · exact hadd rfl
    · exact hadd rfl
    · exact error (hP _ (by simp [OfLine]))
  · exact error (hP _ (by simp [OfLine]))

theorem addEntry (s : State) (column : Nat) (row : String) (value : Float) :
    Faults P (s.addEntry column row value) := by
  refine (target hP s row).bind fun t => ?_
  split
  · exact ok _
  · cases t <;> exact ok _

theorem addEntries (s : State) (column : Nat) (words : List String) :
    Faults P (s.addEntries column words) := by
  induction words using List.twoStepInduction generalizing s with
  | nil | singleton => exact ok _
  | cons_cons row word rest ih _ =>
    exact (number hP word).bind fun value => (addEntry hP s column row value).bind fun s' => ih s'

theorem readColumn (s : State) (words : List String) : Faults P (s.readColumn words) := by
  unfold State.readColumn
  split
  · split
    · unfold State.readMarker
      split
      · exact ok _
      · exact ok _
      · exact error (hP _ (by simp [OfLine]))
    · split
      · exact error (hP _ (by simp [OfLine]))
      · exact addEntries hP _ _ _
  · exact error (hP _ (by simp [OfLine]))

theorem setBound (s : State) (row : String) (value : Float) : Faults P (s.setBound row value) := by
  refine (target hP s row).bind fun t => ?_
  cases t <;> exact ok _

theorem setBounds (s : State) (words : List String) : Faults P (s.setBounds words) := by
  induction words using List.twoStepInduction generalizing s with
  | nil | singleton => exact ok _
  | cons_cons row word rest ih _ =>
    exact (number hP word).bind fun value => (setBound hP s row value).bind fun s' => ih s'

theorem readRightHandSides (s : State) (words : List String) :
    Faults P (s.readRightHandSides words) := by
  unfold State.readRightHandSides
  generalize (if words.length % 2 = 1 then words.tail else words) = pairs
  dsimp only
  split
  · exact error (hP _ (by simp [OfLine]))
  · exact setBounds hP s pairs

theorem boundOperands (kind : String) (words : List String) :
    Faults P (boundOperands kind words) := by
  unfold Mps.boundOperands
  split
  · split
    · exact ok _
    · exact error (hP _ (by simp [OfLine]))
  · split
    · exact ok _
    · exact (number hP _).map _
  · split
    · exact ok _
    · exact (number hP _).map _
  · exact error (hP _ (by simp [OfLine]))

theorem applyBound (kind : String) (value : Float) (c : Column Float) :
    Faults P (applyBound kind value c) := by
  unfold Mps.applyBound
  split
  case h_10 => exact error (hP _ (by simp [OfLine]))
  all_goals exact ok _

theorem readBound (s : State) (words : List String) : Faults P (s.readBound words) := by
  refine (boundOperands hP _ words).bind fun operands => ?_
  dsimp only
  split
  · exact error (hP _ (by simp [OfLine]))
  · split
    · exact error (hP _ (by simp [OfLine]))
    · exact (applyBound hP _ _ _).bind fun c => ok _

theorem readData {s : State} {words : List String}
    (hrow : ∀ sense name, (Line.data words).statements s.place = [.row sense name] →
      (s.rowIndex? name).isSome = true → P (.duplicateRow name)) :
    Faults P (s.readData words) := by
  unfold State.readData
  cases hplace : s.place with
  | direction => exact (directionOf hP _).map _
  | rows =>
    rw [hplace] at hrow
    exact readRow hP hrow
  | columns => exact readColumn hP s words
  | rightHandSides => exact readRightHandSides hP s words
  | bounds => exact readBound hP s words
  | start | name | ranges => exact error (hP _ (by simp [OfLine]))

theorem openSection (s : State) (word : String) (rest : List String) :
    Faults P (s.openSection word rest) := by
  unfold State.openSection
  split
  case h_2 =>
    dsimp only
    split
    · exact ((directionOf hP _).map _).bind fun s' => ok _
    · exact ok _
  case h_9 => exact error (hP _ (by simp [OfLine]))
  all_goals exact ok _

/-- A line is at fault for itself, or it declares a constraint that is there already. -/
theorem readAs {s : State} {l : Line}
    (hrow : ∀ sense name, l.statements s.place = [.row sense name] →
      (s.rowIndex? name).isSome = true → P (.duplicateRow name)) :
    Faults P (s.readAs l) := by
  cases l with
  | silent => exact ok _
  | header word rest => exact openSection hP s word rest
  | data words => exact (readData hP hrow).map _

end Faults

theorem ne_missingEnd_of_readAs {s : State} {l : Line} {e : Fault} (h : s.readAs l = .error e) :
    e ≠ .missingEnd :=
  Faults.readAs (P := (· ≠ .missingEnd)) (fun _ he => he.1) (fun _ _ _ _ => nofun) e h

theorem head?_toList_append {s : String} {c : Char} (h : s.toList.head? = some c) (t : String) :
    (s ++ t).toList.head? = some c := by
  rw [String.toList_append, List.head?_append, h]
  rfl

theorem head?_toList_quoted (word : String) : (quoted word).toList.head? = some '\'' :=
  head?_toList_append (head?_toList_append rfl word) "'"

theorem eq_missingEnd_of_message {e : Fault} (h : e.message = "missing ENDATA") :
    e = .missingEnd := by
  have hfirst {s : String} {c : Char} (hs : s.toList.head? = some c) (hc : c ≠ 'm') (t : String) :
      s ++ t ≠ "missing ENDATA" := by
    intro he
    have hhead := head?_toList_append hs t
    rw [he] at hhead
    exact hc (Option.some.inj hhead).symm
  cases e with
  | missingEnd => rfl
  | notANumber word => exact absurd h (hfirst (head?_toList_quoted word) (by decide) _)
  | duplicateRow name => exact absurd h (hfirst (c := 'd') rfl (by decide) _)
  | unknownDirection | unknownRowType | unknownMarker | unknownRow | unknownColumn
  | unknownBoundType | unknownSection => exact absurd h (hfirst (c := 'u') rfl (by decide) _)
  | rowShape | columnShape | boundSetShape | boundShape | rangesUnsupported | outsideSection =>
    exact absurd h (by decide)

namespace State

/-- Reading the lines leads from one state to another. -/
inductive Passes : State → List Line → State → Prop where
  | nil (s : State) : Passes s [] s
  | cons {s s₁ s' : State} {l : Line} {ls : List Line} :
      s.readAs l = .ok (.more s₁) → Passes s₁ ls s' → Passes s (l :: ls) s'

variable {s s' : State} {before ls : List Line}

theorem Passes.readAll (h : s.Passes before s') (n : Nat) (after : List Line) :
    s.readAll n (before ++ after) = s'.readAll (n + before.length) after := by
  induction h generalizing n with
  | nil => rfl
  | cons hl _ ih =>
    rw [List.cons_append, State.readAll, hl]
    dsimp only
    rw [ih, List.length_cons, Nat.add_assoc, Nat.add_comm 1]

/-- Where a line that ends the program follows, it is accepted. -/
theorem Passes.accepted (h : s.Passes before s') {l : Line} (hl : l.isEnd = true) (n : Nat)
    (after : List Line) : s.readAll n (before ++ l :: after) = .ok s'.problem := by
  rw [h.readAll, State.readAll, readAs_of_isEnd hl]

/-- A program that is not read has lines that lead nowhere, or a line that is at fault. -/
theorem passes_of_readAll_error {n k : Nat} {e : Fault} (h : s.readAll n ls = .error (k, e)) :
    (∃ s', s.Passes ls s' ∧ k = n + ls.length ∧ e = .missingEnd) ∨
      ∃ before l after s', ls = before ++ l :: after ∧ s.Passes before s' ∧
        s'.readAs l = .error e ∧ k = n + before.length + 1 := by
  induction ls generalizing s n with
  | nil =>
    obtain ⟨rfl, rfl⟩ := Prod.mk.inj (Except.error.inj h)
    exact .inl ⟨s, .nil s, rfl, rfl⟩
  | cons l ls ih =>
    rw [readAll] at h
    cases hl : s.readAs l with
    | error fault =>
      rw [hl] at h
      obtain ⟨rfl, rfl⟩ := Prod.mk.inj (Except.error.inj h)
      exact .inr ⟨[], l, ls, s, rfl, .nil s, hl, rfl⟩
    | ok r =>
      rw [hl] at h
      cases r with
      | done p => cases h
      | more s₁ =>
        obtain ⟨s', hpass, hk, he⟩ | ⟨before, l', after, s', rfl, hpass, he, hk⟩ := ih h
        · exact .inl ⟨s', .cons hl hpass, by simp only [List.length_cons]; omega, he⟩
        · refine .inr ⟨l :: before, l', after, s', rfl, .cons hl hpass, he, ?_⟩
          simp only [List.length_cons]
          omega

/-- A program that is read has a line that ends it. -/
theorem passes_of_readAll_ok {n : Nat} {p : Problem Float} (h : s.readAll n ls = .ok p) :
    ∃ before l after s', ls = before ++ l :: after ∧ s.Passes before s' ∧ l.isEnd = true ∧
      s'.problem = p := by
  induction ls generalizing s n with
  | nil => cases h
  | cons l ls ih =>
    rw [readAll] at h
    cases hl : s.readAs l with
    | error fault =>
      rw [hl] at h
      cases h
    | ok r =>
      rw [hl] at h
      cases r with
      | done q =>
        have hend := isEnd_of_readAs_done hl
        obtain rfl : q = p := Except.ok.inj h
        rw [readAs_of_isEnd hend] at hl
        exact ⟨[], l, ls, s, rfl, .nil s, hend, Progress.done.inj (Except.ok.inj hl)⟩
      | more s₁ =>
        obtain ⟨before, l', after, s', rfl, hpass, hend, hp⟩ := ih h
        exact ⟨l :: before, l', after, s', rfl, .cons hl hpass, hend, hp⟩

end State

theorem take_length_succ {γ : Type} (before : List γ) (l : γ) (after : List γ) :
    (before ++ l :: after).take (before.length + 1) = before ++ [l] := by
  rw [List.take_append, List.take_of_length_le (Nat.le_succ _)]
  simp

theorem newline_not_mem_lines {cs l : List Char} (h : l ∈ Text.lines cs) : '\n' ∉ l := by
  induction cs generalizing l with
  | nil => cases h
  | cons c cs ih =>
    rw [Text.lines] at h
    by_cases hc : c = '\n'
    · rw [if_pos hc] at h
      rcases List.mem_cons.1 h with rfl | h
      · exact List.not_mem_nil
      · exact ih h
    · rw [if_neg hc] at h
      have hc : '\n' ≠ c := Ne.symm hc
      cases hr : Text.lines cs with
      | nil =>
        rw [hr] at h
        obtain rfl := List.mem_singleton.1 h
        simpa using hc
      | cons m ms =>
        rw [hr] at h ih
        rcases List.mem_cons.1 h with rfl | h
        · exact List.not_mem_cons_of_ne_of_not_mem hc (ih List.mem_cons_self)
        · exact ih (List.mem_cons_of_mem m h)

def ofLines (ls : List (List Char)) : String :=
  String.ofList (ls.flatMap (· ++ ['\n']))

theorem said_ofLines {ls : List (List Char)} (h : ∀ l ∈ ls, '\n' ∉ l) :
    said (ofLines ls) = ls.map Line.of := by
  rw [said, ofLines, String.toList_ofList, Text.lines_flatMap ls h]

/-- The first lines of a text and then the end of a program. -/
def ended (text : String) (k : Nat) : String :=
  ofLines ((Text.lines text.toList).take k ++ ["ENDATA".toList])

theorem said_ended (text : String) (k : Nat) :
    said (ended text k) = (said text).take k ++ [.header "ENDATA" []] := by
  have hlines : ∀ l ∈ (Text.lines text.toList).take k ++ ["ENDATA".toList], '\n' ∉ l := by
    refine List.forall_mem_append.2 ⟨fun l hl => ?_, List.forall_mem_singleton.2 (by decide)⟩
    exact newline_not_mem_lines (List.mem_of_mem_take hl)
  rw [ended, said_ofLines hlines, List.map_append, List.map_take]
  rfl

theorem read_ended {text : String} {k : Nat} {s : State}
    (h : State.Passes {} ((said text).take k) s) : read (ended text k) = .ok s.problem := by
  rw [read_eq, said_ended]
  exact h.accepted (l := .header "ENDATA" []) rfl 0 []

/-- A fault is that of the first line which cannot be read, and what is read is decided by the
lines up to the first that ends the program. How lines end and how wide their blanks are says
nothing, so texts are compared by what their lines say. -/
theorem read_decided_by_lines (text : String) :
    (∀ k e, read text = .error (k, e) → e.message ≠ "missing ENDATA" →
      1 ≤ k ∧ k ≤ (Text.lines text.toList).length ∧ (∃ p, read (ended text (k - 1)) = .ok p) ∧
        ∀ other, (said text).take k <+: said other → read other = .error (k, e)) ∧
    (∀ k e, read text = .error (k, e) → e.message = "missing ENDATA" →
      k = (Text.lines text.toList).length ∧ ∃ p, read (ended text k) = .ok p) ∧
    ∀ p, read text = .ok p → ∃ before l after, said text = before ++ l :: after ∧
      l.isEnd = true ∧ ∀ other, before ++ [l] <+: said other → read other = .ok p := by
  have hlength : (Text.lines text.toList).length = (said text).length := (List.length_map _).symm
  rw [hlength, read_eq]
  refine ⟨fun k e hr hm => ?_, fun k e hr hm => ?_, fun p hr => ?_⟩
  · obtain ⟨s, -, -, rfl⟩ | ⟨before, l, after, s, hs, hpass, he, hk⟩ :=
      State.passes_of_readAll_error hr
    · exact absurd rfl hm
    have hk : k = before.length + 1 := by omega
    have htake : (said text).take k = before ++ [l] := by rw [hs, hk, take_length_succ]
    have hbefore : (said text).take (k - 1) = before := by
      rw [hs, hk]
      exact List.take_left
    refine ⟨by omega, ?_, ⟨s.problem, read_ended (hbefore ▸ hpass)⟩, fun other hother => ?_⟩
    · rw [hs, List.length_append, List.length_cons]
      omega
    · obtain ⟨rest, hrest⟩ := htake ▸ hother
      rw [read_eq, ← hrest, List.append_assoc, hpass.readAll, List.singleton_append, State.readAll,
        he]
      simp [hk]
  · obtain rfl := eq_missingEnd_of_message hm
    obtain ⟨s, hpass, hk, -⟩ | ⟨before, l, after, s, -, -, he, -⟩ :=
      State.passes_of_readAll_error hr
    · have hk : k = (said text).length := by omega
      have hall : (said text).take k = said text := List.take_of_length_le hk.ge
      exact ⟨hk, s.problem, read_ended (hall.symm ▸ hpass)⟩
    · exact absurd rfl (ne_missingEnd_of_readAs he)
  · obtain ⟨before, l, after, s, hs, hpass, hend, rfl⟩ := State.passes_of_readAll_ok hr
    refine ⟨before, l, after, hs, hend, fun other hother => ?_⟩
    obtain ⟨rest, hrest⟩ := hother
    rw [read_eq, ← hrest, List.append_assoc]
    exact hpass.accepted hend 0 rest

/-- A row of no type. -/
def mistyped : String := "ROWS\n N cost\n X demand\n"

def unfinished : String := "ROWS\n N cost\n"

def finished : String := "ROWS\n N cost\nENDATA\n and more\n"

theorem read_decided_by_lines_three_files :
    (read mistyped = .error (3, .unknownRowType "X") ∧
      ∀ other, (said mistyped).take 3 <+: said other →
        read other = .error (3, .unknownRowType "X")) ∧
    (read unfinished = .error (2, .missingEnd) ∧ ∃ p, read (ended unfinished 2) = .ok p) ∧
    ∃ p before l after, read finished = .ok p ∧ said finished = before ++ l :: after ∧
      l.isEnd = true ∧ ∀ other, before ++ [l] <+: said other → read other = .ok p := by
  have hmistyped : read mistyped = .error (3, .unknownRowType "X") := by cbv
  have hunfinished : read unfinished = .error (2, .missingEnd) := by cbv
  have hread : (read finished).toOption.isSome = true := by decide +kernel
  obtain ⟨p, hp⟩ := Option.isSome_iff_exists.1 hread
  have hfinished : read finished = .ok p := eq_ok_of_mem_toOption hp
  obtain ⟨before, l, after, hs, hl, hother⟩ := (read_decided_by_lines finished).2.2 p hfinished
  exact ⟨⟨hmistyped, ((read_decided_by_lines mistyped).1 3 _ hmistyped (by decide)).2.2.2⟩,
    ⟨hunfinished, ((read_decided_by_lines unfinished).2.1 2 _ hunfinished rfl).2⟩,
    p, before, l, after, hfinished, hs, hl, hother⟩

end LinearProgram.Mps
