import LinearProgram.Proofs.MpsBounds

/-! What a file states, one thing after another. Apart from its words, what a line states depends
on the section that it stands in and on nothing else. -/

namespace LinearProgram.Mps

/-- A line by its layout: nothing, the word of a section with the words after it, or the words of
an indented line. -/
inductive Line where
  | silent
  | header (word : String) (rest : List String)
  | data (words : List String)

namespace Line

def of (cs : List Char) : Line :=
  match (Text.words cs).map String.ofList with
  | [] => .silent
  | word :: rest =>
    if word.toList.head? = some '*' then .silent
    else if (cs.head?.map Text.isBlank).getD false then .data (word :: rest)
    else .header word rest

def isEnd : Line → Bool
  | header word _ => capital word = "ENDATA"
  | _ => false

/-- The section that the next line stands in. -/
def placeAfter (place : Place) : Line → Place
  | header word _ =>
    match capital word with
    | "NAME" => .name
    | "OBJSENSE" => .direction
    | "ROWS" => .rows
    | "COLUMNS" => .columns
    | "RHS" => .rightHandSides
    | "RANGES" => .ranges
    | "BOUNDS" => .bounds
    | _ => place
  | _ => place

end Line

/-- The lines of a text. -/
def said (text : String) : List Line :=
  (Text.lines text.toList).map Line.of

/-- What the line of a file can state. An entry is a coefficient in a row. -/
inductive Statement where
  | title (name : String)
  | direction (d : Direction)
  | freeRow (name : String)
  | row (sense : Sense) (name : String)
  | marker (opens : Bool)
  | column (name : String)
  | entry (column row : String) (value : Float)
  | rightHandSide (row : String) (value : Float)
  | bound (column : String) (b : StatedBound)

def statedDirection? (word : String) : Option Direction :=
  match capital word with
  | "MAX" | "MAXIMIZE" => some .maximize
  | "MIN" | "MINIMIZE" => some .minimize
  | _ => none

/-- Names with numbers, pair after pair. -/
def statedPairs : List String → List (String × Float)
  | name :: word :: rest =>
    ((statedNumber? word).map fun x => (name, x)).toList ++ statedPairs rest
  | _ => []

def rowStatements : List String → List Statement
  | [kind, name] =>
    match capital kind with
    | "N" => [.freeRow name]
    | "L" => [.row .lessEqual name]
    | "E" => [.row .equal name]
    | "G" => [.row .greaterEqual name]
    | _ => []
  | _ => []

def markerStatements (word : String) : List Statement :=
  match capital (unquoted word) with
  | "INTORG" => [.marker true]
  | "INTEND" => [.marker false]
  | _ => []

/-- A marker opens or closes a block of integer columns. Any other line names a column and then
rows with its coefficients in them. -/
def columnStatements : List String → List Statement
  | name :: second :: third :: rest =>
    if capital (unquoted second) = "MARKER" then markerStatements third
    else
      .column name :: (statedPairs (second :: third :: rest)).map fun (row, x) => .entry name row x
  | _ => []

/-- An odd word is the name of the set. -/
def rightHandSideStatements (words : List String) : List Statement :=
  (statedPairs (if words.length % 2 = 1 then words.tail else words)).map fun (row, x) =>
    .rightHandSide row x

def boundStatements (words : List String) : List Statement :=
  ((StatedBound.ofWords? words).map fun (column, b) => .bound column b).toList

def directionStatements (word : String) : List Statement :=
  ((statedDirection? word).map Statement.direction).toList

namespace Line

/-- What a line in a section states. -/
def statements (place : Place) : Line → List Statement
  | silent => []
  | header word rest =>
    match capital word with
    | "NAME" => [.title (" ".intercalate rest)]
    | "OBJSENSE" => (rest.head?.map directionStatements).getD []
    | _ => []
  | data words =>
    match place with
    | .direction => directionStatements (words.headD "")
    | .rows => rowStatements words
    | .columns => columnStatements words
    | .rightHandSides => rightHandSideStatements words
    | .bounds => boundStatements words
    | .start | .name | .ranges => []

end Line

/-- What the lines up to the end of the program state, from a section on. -/
def statementsFrom (place : Place) : List Line → List Statement
  | [] => []
  | l :: ls =>
    if l.isEnd then [] else l.statements place ++ statementsFrom (l.placeAfter place) ls

/-- What a file states, in the order of its lines. -/
def statements (text : String) : List Statement :=
  statementsFrom .start (said text)

theorem statedDirection?_of_directionOf {word : String} {d : Direction}
    (h : directionOf word = .ok d) : statedDirection? word = some d := by
  unfold directionOf at h
  unfold statedDirection?
  generalize capital word = w at h ⊢
  dsimp only at h
  by_cases hmax : w = "MAX" ∨ w = "MAXIMIZE"
  · rw [if_pos hmax] at h
    obtain rfl := Except.ok.inj h
    rcases hmax with rfl | rfl <;> rfl
  · rw [if_neg hmax] at h
    by_cases hmin : w = "MIN" ∨ w = "MINIMIZE"
    · rw [if_pos hmin] at h
      obtain rfl := Except.ok.inj h
      rcases hmin with rfl | rfl <;> rfl
    · rw [if_neg hmin] at h
      cases h

theorem directionStatements_of_directionOf {word : String} {d : Direction}
    (h : directionOf word = .ok d) : directionStatements word = [.direction d] := by
  rw [directionStatements, statedDirection?_of_directionOf h]
  rfl

namespace State

/-- Reading a line by its layout. -/
def readAs (s : State) : Line → Except Fault Progress
  | .silent => .ok (.more s)
  | .header word rest => s.openSection word rest
  | .data words => .more <$> s.readData words

theorem readLine_eq (s : State) (cs : List Char) : s.readLine cs = s.readAs (Line.of cs) := by
  unfold readLine Line.of
  cases (Text.words cs).map String.ofList with
  | nil => rfl
  | cons word rest =>
    dsimp only
    by_cases hcomment : word.toList.head? = some '*'
    · rw [if_pos hcomment, if_pos hcomment]
      rfl
    · by_cases hindented : (cs.head?.map Text.isBlank).getD false = true
      · rw [if_neg hcomment, if_neg hcomment, if_pos hindented, if_pos hindented]
        rfl
      · rw [if_neg hcomment, if_neg hcomment, if_neg hindented, if_neg hindented]
        rfl

/-- Reading a file by the layout of its lines. -/
def readAll (s : State) (read : Nat) : List Line → Except (Nat × Fault) (Problem Float)
  | [] => .error (read, .missingEnd)
  | l :: ls =>
    match s.readAs l with
    | .error fault => .error (read + 1, fault)
    | .ok (.done p) => .ok p
    | .ok (.more s) => s.readAll (read + 1) ls

theorem readLines_eq (s : State) (read : Nat) (lines : List (List Char)) :
    s.readLines read lines = s.readAll read (lines.map Line.of) := by
  induction lines generalizing s read with
  | nil => rfl
  | cons line rest ih =>
    rw [readLines, List.map_cons, readAll, readLine_eq]
    cases s.readAs (Line.of line) with
    | error fault => rfl
    | ok r =>
      cases r with
      | done p => rfl
      | more s' => exact ih s' (read + 1)

/-- What a state becomes by a statement. -/
def perform (s : State) : Statement → Except Fault State
  | .title name => .ok (s.setProblem fun p => { p with name })
  | .direction d => .ok (s.setDirection d)
  | .freeRow name => .ok (s.addFreeRow name)
  | .row sense name => s.addRow sense name
  | .marker opens => .ok { s with integerBlock := opens }
  | .column name => .ok (s.declareColumn name).2
  | .entry column row value =>
    match s.columnIndex? column with
    | none => .error (.unknownColumn column)
    | some i => s.addEntry i row value
  | .rightHandSide row value => s.setBound row value
  | .bound column b =>
    match s.columnIndex? column with
    | none => .error (.unknownColumn column)
    | some i => .ok (s.modifyColumn i b.impose)

def performAll (s : State) (fs : List Statement) : Except Fault State :=
  fs.foldlM perform s

variable {s s' : State}

theorem performAll_cons {f : Statement} (h : s.perform f = .ok s') (fs : List Statement) :
    s.performAll (f :: fs) = s'.performAll fs := by
  rw [performAll, List.foldlM_cons, h]
  rfl

theorem performAll_singleton {f : Statement} (h : s.perform f = .ok s') :
    s.performAll [f] = .ok s' :=
  performAll_cons h []

theorem perform_entry {column : String} {i : Nat} (hi : s.columnIndex? column = some i)
    (row : String) (value : Float) :
    s.perform (.entry column row value) = s.addEntry i row value := by
  rw [perform, hi]

theorem performAll_of_readRow {words : List String} (h : s.readRow words = .ok s') :
    s.performAll (rowStatements words) = .ok s' := by
  unfold readRow at h
  split at h
  · rename_i kind name
    simp only [rowStatements]
    generalize capital kind = letter at h ⊢
    split at h
    · exact performAll_singleton (f := .freeRow name) h
    · exact performAll_singleton (f := .row .lessEqual name) h
    · exact performAll_singleton (f := .row .equal name) h
    · exact performAll_singleton (f := .row .greaterEqual name) h
    · cases h
  · cases h

/-- Pairs of names and numbers are carried out one after another. -/
theorem performAll_statedPairs {f : String × Float → Statement} {name word : String} {value : Float}
    (hvalue : number word = .ok value) (h : s.perform (f (name, value)) = .ok s')
    (rest : List String) :
    s.performAll ((statedPairs (name :: word :: rest)).map f) =
      s'.performAll ((statedPairs rest).map f) := by
  rw [statedPairs, statedNumber?_of_number hvalue]
  exact performAll_cons h _

theorem performAll_of_addEntries {column : String} {i : Nat} {words : List String}
    (hi : s.columnIndex? column = some i) (h : s.addEntries i words = .ok s') :
    s.performAll ((statedPairs words).map fun (row, x) => .entry column row x) = .ok s' := by
  induction words using List.twoStepInduction generalizing s with
  | nil => exact h
  | singleton => exact h
  | cons_cons row word rest ih _ =>
    obtain ⟨value, hvalue, h⟩ := exists_of_bind_eq_ok h
    obtain ⟨s₁, h₁, h⟩ := exists_of_bind_eq_ok h
    have hi₁ : s₁.columnIndex? column = some i := by
      rw [columnIndex?, columns_addEntry h₁]
      exact hi
    have hentry := (perform_entry hi row value).trans h₁
    exact (performAll_statedPairs hvalue hentry rest).trans (ih hi₁ h)

theorem columnIndex?_declareColumn (s : State) (name : String) :
    (s.declareColumn name).2.columnIndex? name = some (s.declareColumn name).1 := by
  unfold declareColumn
  cases hi : s.columnIndex? name with
  | some i => exact hi
  | none =>
    have hadd {c : Column Float} (hc : c.name = name) :
        (s.setProblem fun p => { p with columns := p.columns ++ [c] }).columnIndex? name =
          some s.problem.columns.length := by
      have hi : s.problem.columns.findIdx? (fun c => c.name = name) = none := hi
      rw [columnIndex?, setProblem, List.findIdx?_append, hi]
      simp [hc]
    cases s.integerBlock with
    | true => exact hadd rfl
    | false => exact hadd rfl

theorem performAll_of_readMarker {word : String} (h : s.readMarker word = .ok s') :
    s.performAll (markerStatements word) = .ok s' := by
  unfold readMarker at h
  unfold markerStatements
  generalize capital (unquoted word) = kind at h ⊢
  split at h
  · exact performAll_singleton (f := .marker true) h
  · exact performAll_singleton (f := .marker false) h
  · cases h

theorem performAll_of_readColumn {words : List String} (h : s.readColumn words = .ok s') :
    s.performAll (columnStatements words) = .ok s' := by
  rcases words with - | ⟨name, - | ⟨second, - | ⟨third, rest⟩⟩⟩
  · cases h
  · cases h
  · cases h
  rw [readColumn] at h
  rw [columnStatements]
  have hiff : isMarker second = true ↔ capital (unquoted second) = "MARKER" := decide_eq_true_iff
  by_cases hmarker : capital (unquoted second) = "MARKER"
  · rw [if_pos (hiff.2 hmarker)] at h
    rw [if_pos hmarker]
    exact performAll_of_readMarker h
  · rw [if_neg (mt hiff.1 hmarker)] at h
    rw [if_neg hmarker]
    by_cases hodd : rest.length % 2 = 1
    · rw [if_pos hodd] at h
      cases h
    · rw [if_neg hodd] at h
      refine (performAll_cons (f := .column name) rfl _).trans ?_
      exact performAll_of_addEntries (s.columnIndex?_declareColumn name) h

theorem performAll_of_setBounds {words : List String} (h : s.setBounds words = .ok s') :
    s.performAll ((statedPairs words).map fun (row, x) => .rightHandSide row x) = .ok s' := by
  induction words using List.twoStepInduction generalizing s with
  | nil => exact h
  | singleton => exact h
  | cons_cons row word rest ih _ =>
    obtain ⟨value, hvalue, h⟩ := exists_of_bind_eq_ok h
    obtain ⟨s₁, h₁, h⟩ := exists_of_bind_eq_ok h
    have hside : s.perform (.rightHandSide row value) = .ok s₁ := h₁
    exact (performAll_statedPairs hvalue hside rest).trans (ih h)

theorem performAll_of_readRightHandSides {words : List String}
    (h : s.readRightHandSides words = .ok s') :
    s.performAll (rightHandSideStatements words) = .ok s' := by
  unfold readRightHandSides at h
  unfold rightHandSideStatements
  dsimp only at h
  generalize (if words.length % 2 = 1 then words.tail else words) = pairs at h ⊢
  split at h
  · cases h
  · exact performAll_of_setBounds h

theorem performAll_of_readBound {words : List String} (h : s.readBound words = .ok s') :
    s.performAll (boundStatements words) = .ok s' := by
  obtain ⟨name, b, i, hb, hi, rfl⟩ := exists_impose_of_readBound h
  rw [boundStatements, hb]
  refine performAll_singleton (f := .bound name b) ?_
  rw [perform, hi]

/-- A line of data is carried out as what it states. -/
theorem performAll_of_readData {words : List String} (h : s.readData words = .ok s') :
    s.performAll ((Line.data words).statements s.place) = .ok s' := by
  unfold readData at h
  unfold Line.statements
  cases hp : s.place with
  | direction =>
    rw [hp] at h
    obtain ⟨d, hd, hs⟩ := exists_of_map_eq_ok h
    dsimp only
    rw [directionStatements_of_directionOf hd]
    exact performAll_singleton (f := .direction d) (congrArg Except.ok hs)
  | rows =>
    rw [hp] at h
    exact performAll_of_readRow h
  | columns =>
    rw [hp] at h
    exact performAll_of_readColumn h
  | rightHandSides =>
    rw [hp] at h
    exact performAll_of_readRightHandSides h
  | bounds =>
    rw [hp] at h
    exact performAll_of_readBound h
  | start | name | ranges =>
    rw [hp] at h
    cases h

/-- So is the word of a section, and then the section begins. -/
theorem performAll_of_openSection {word : String} {rest : List String}
    (h : s.openSection word rest = .ok (.more s')) :
    ∃ s₁, s.performAll ((Line.header word rest).statements s.place) = .ok s₁ ∧
      s' = { s₁ with place := (Line.header word rest).placeAfter s₁.place } := by
  unfold openSection at h
  unfold Line.statements Line.placeAfter
  dsimp only
  generalize capital word = w at h ⊢
  split at h
  · cases h
    exact ⟨_, rfl, rfl⟩
  · dsimp only at h
    split at h
    · rename_i w hw
      obtain ⟨s₁, h₁, h⟩ := exists_of_bind_eq_ok h
      obtain ⟨d, hd, rfl⟩ := exists_of_map_eq_ok h₁
      cases h
      simp only [hw, Option.map_some, Option.getD_some, directionStatements_of_directionOf hd]
      exact ⟨_, rfl, rfl⟩
    · rename_i hw
      cases h
      simp only [hw]
      exact ⟨_, rfl, rfl⟩
  all_goals cases h
  all_goals exact ⟨s, rfl, rfl⟩

theorem performAll_of_readAs {l : Line} (h : s.readAs l = .ok (.more s')) :
    ∃ s₁, s.performAll (l.statements s.place) = .ok s₁ ∧
      s' = { s₁ with place := l.placeAfter s₁.place } := by
  cases l with
  | silent =>
    cases h
    exact ⟨s, rfl, rfl⟩
  | header word rest => exact performAll_of_openSection h
  | data words =>
    obtain ⟨s₁, h₁, hs⟩ := exists_of_map_eq_ok h
    cases hs
    exact ⟨s', performAll_of_readData h₁, rfl⟩

theorem readAs_of_isEnd {l : Line} (h : l.isEnd = true) (s : State) :
    s.readAs l = .ok (.done s.problem) := by
  cases l with
  | silent => cases h
  | data words => cases h
  | header word rest =>
    have hword : capital word = "ENDATA" := of_decide_eq_true h
    unfold readAs openSection
    simp only [hword]

theorem isEnd_of_readAs_done {l : Line} {p : Problem Float} (h : s.readAs l = .ok (.done p)) :
    l.isEnd = true := by
  cases l with
  | silent => cases h
  | data words =>
    obtain ⟨s₁, -, hs⟩ := exists_of_map_eq_ok h
    cases hs
  | header word rest =>
    unfold readAs openSection at h
    dsimp only at h
    split at h
    case h_2 =>
      split at h
      · obtain ⟨s₁, -, hs⟩ := exists_of_bind_eq_ok h
        cases hs
      · cases h
    case h_8 hword => exact decide_eq_true hword
    all_goals cases h

end State

theorem read_eq (text : String) : read text = State.readAll {} 0 (said text) :=
  State.readLines_eq ..

end LinearProgram.Mps
