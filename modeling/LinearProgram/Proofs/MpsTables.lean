import LinearProgram.Proofs.MpsResaved
import Std.Data.HashMap.Lemmas

/-! A second reader, which finds rows and columns in tables and takes words, pairs of words, rows
and columns from where they should be. That nothing is there is an outcome of its own, which no text
has. What is read is a program that can be written. -/

namespace LinearProgram.Mps

/-- What stops the reader. -/
inductive Halt (ε : Type) where
  | fault (e : ε)
  | outOfRange

def item {γ : Type} (l : List γ) (i : Nat) : Except (Halt Fault) γ :=
  match l[i]? with
  | some a => .ok a
  | none => .error .outOfRange

def itemsFrom {γ : Type} (l : List γ) (i : Nat) : Except (Halt Fault) (List γ) :=
  if i ≤ l.length then .ok (l.drop i) else .error .outOfRange

/-- Pieces of two words, and a last one of one word if it has to be. -/
def pieces : List String → List (List String)
  | first :: second :: rest => [first, second] :: pieces rest
  | [last] => [[last]]
  | [] => []

/-- A step that takes nothing from a list. -/
def sure {γ : Type} (x : Except Fault γ) : Except (Halt Fault) γ :=
  x.mapError .fault

/-- A state of the reader and the places of its rows and columns by name. -/
structure Tables where
  state : State := {}
  rows : Std.HashMap String Nat := {}
  columns : Std.HashMap String Nat := {}

namespace Tables

def target (t : Tables) (row : String) : Except Fault Target :=
  if t.state.objectiveRow = some row then .ok .objective
  else match t.rows[row]? with
    | some i => .ok (.constraint i)
    | none => if t.state.freeRows.contains row then .ok .nothing else .error (.unknownRow row)

def addRow (t : Tables) (sense : Sense) (name : String) : Except Fault Tables :=
  if t.rows[name]?.isSome then .error (.duplicateRow name)
  else .ok { t with
    state := t.state.setProblem fun p =>
      { p with constraints := p.constraints ++ [{ sense, terms := [], bound := 0, name }] }
    rows := t.rows.insert name t.state.problem.constraints.length }

def readRow (t : Tables) : List String → Except Fault Tables
  | [kind, name] =>
    let kind := capital kind
    if kind = "N" then .ok { t with state := t.state.addFreeRow name }
    else if kind = "L" then t.addRow .lessEqual name
    else if kind = "E" then t.addRow .equal name
    else if kind = "G" then t.addRow .greaterEqual name
    else .error (.unknownRowType kind)
  | _ => .error .rowShape

def declareColumn (t : Tables) (name : String) : Nat × Tables :=
  match t.columns[name]? with
  | some i => (i, t)
  | none =>
    let column := if t.state.integerBlock then Column.integer name else Column.continuous name
    let i := t.state.problem.columns.length
    (i, { t with
      state := t.state.setProblem fun p => { p with columns := p.columns ++ [column] }
      columns := t.columns.insert name i })

def modifyConstraint (t : Tables) (i : Nat) (f : Constraint Float → Constraint Float) :
    Except (Halt Fault) Tables := do
  let _ ← item t.state.problem.constraints i
  return { t with state := t.state.modifyConstraint i f }

def addEntry (t : Tables) (column : Nat) (row : String) (value : Float) :
    Except (Halt Fault) Tables := do
  let target ← sure (t.target row)
  if value == 0 then return t
  match target with
  | .objective => return { t with state := t.state.addObjectiveTerm (column, value) }
  | .constraint i =>
    t.modifyConstraint i fun c => { c with terms := c.terms ++ [(column, value)] }
  | .nothing => return t

def addEntries (t : Tables) (column : Nat) : List (List String) → Except (Halt Fault) Tables
  | [] => .ok t
  | pair :: rest => do
    let value ← sure (number (← item pair 1))
    (← t.addEntry column (← item pair 0) value).addEntries column rest

def setBound (t : Tables) (row : String) (value : Float) : Except (Halt Fault) Tables := do
  match ← sure (t.target row) with
  | .constraint i => t.modifyConstraint i fun c => { c with bound := value }
  | _ => return t

def setBounds (t : Tables) : List (List String) → Except (Halt Fault) Tables
  | [] => .ok t
  | pair :: rest => do
    let value ← sure (number (← item pair 1))
    (← t.setBound (← item pair 0) value).setBounds rest

/-- The second word is looked at where there are three. -/
def isMarkerLine (words : List String) : Except (Halt Fault) Bool :=
  if 3 ≤ words.length then State.isMarker <$> item words 1 else .ok false

def readColumn (t : Tables) (words : List String) : Except (Halt Fault) Tables := do
  if ← isMarkerLine words then
    let s ← sure (t.state.readMarker (← item words 2))
    return { t with state := s }
  else if words.length < 3 ∨ words.length % 2 = 0 then .error (.fault .columnShape)
  else
    let (i, t) := t.declareColumn (← item words 0)
    t.addEntries i (pieces (← itemsFrom words 1))

/-- An odd word is the name of the set. -/
def withoutSetName (words : List String) : Except (Halt Fault) (List String) :=
  if words.length % 2 = 1 then itemsFrom words 1 else .ok words

def readRightHandSides (t : Tables) (words : List String) : Except (Halt Fault) Tables := do
  let pairs ← withoutSetName words
  if pairs.isEmpty then .error (.fault .boundSetShape) else t.setBounds (pieces pairs)

def boundOperands (kind : String) (words : List String) :
    Except (Halt Fault) (String × Float) := do
  match valueless kind, words.length with
  | false, 4 => return (← item words 2, ← sure (number (← item words 3)))
  | false, 3 => return (← item words 1, ← sure (number (← item words 2)))
  | true, 3 | true, 4 => return (← item words 2, 0)
  | true, 2 => return (← item words 1, 0)
  | _, _ => .error (.fault .boundShape)

def readBound (t : Tables) (words : List String) : Except (Halt Fault) Tables := do
  let kind := capital (words.headD "")
  let (name, value) ← boundOperands kind words
  match t.columns[name]? with
  | none => .error (.fault (.unknownColumn name))
  | some i =>
    let c ← sure (applyBound kind value (← item t.state.problem.columns i))
    return { t with state := t.state.modifyColumn i fun _ => c }

def readData (t : Tables) (words : List String) : Except (Halt Fault) Tables :=
  match t.state.place with
  | .direction => do
    let d ← sure (directionOf (← item words 0))
    return { t with state := t.state.setDirection d }
  | .rows => sure (t.readRow words)
  | .columns => t.readColumn words
  | .rightHandSides => t.readRightHandSides words
  | .bounds => t.readBound words
  | .ranges => .error (.fault .rangesUnsupported)
  | .start | .name => .error (.fault .outsideSection)

/-- The program, if the line ends it, or else what the next line meets. -/
def readLine (t : Tables) (line : List Char) : Except (Halt Fault) (Problem Float ⊕ Tables) := do
  let trimmed := Text.trim line
  if trimmed.isEmpty || trimmed.head? = some '*' then return .inr t
  let words := (Text.words trimmed).map String.ofList
  if (line.head?.map Text.isBlank).getD false then .inr <$> t.readData words
  else match ← sure (t.state.openSection (← item words 0) (← itemsFrom words 1)) with
  | .more s => return .inr { t with state := s }
  | .done p => return .inl p

def readLines (t : Tables) (read : Nat) :
    List (List Char) → Except (Halt (Nat × Fault)) (Problem Float)
  | [] => .error (.fault (read, .missingEnd))
  | line :: rest =>
    match t.readLine line with
    | .error (.fault fault) => .error (.fault (read + 1, fault))
    | .error .outOfRange => .error .outOfRange
    | .ok (.inl p) => .ok p
    | .ok (.inr t) => t.readLines (read + 1) rest

def read (text : String) : Except (Halt (Nat × Fault)) (Problem Float) :=
  readLines {} 0 (Text.lines text.toList)

end Tables

/-- A table with the first place of every name of a list. -/
def Locates (table : Std.HashMap String Nat) (names : List String) : Prop :=
  ∀ name, table[name]? = names.findIdx? (· = name)

theorem Locates.insert {table : Std.HashMap String Nat} {names : List String}
    (h : Locates table names) {new : String} (hnew : table[new]? = none) :
    Locates (table.insert new names.length) (names ++ [new]) := by
  intro name
  rw [Std.HashMap.getElem?_insert, List.findIdx?_append, ← h name]
  by_cases hname : new = name
  · subst hname
    simp [hnew]
  · simp [hname]

namespace State

def rowNames (s : State) : List String :=
  s.problem.constraints.map (·.name)

variable (s : State)

theorem rowIndex?_eq_findIdx? (name : String) :
    s.rowIndex? name = s.rowNames.findIdx? (· = name) := by
  rw [rowNames, List.findIdx?_map]
  rfl

theorem columnIndex?_eq_findIdx? (name : String) :
    s.columnIndex? name = s.names.findIdx? (· = name) := by
  rw [names, List.findIdx?_map]
  rfl

theorem rowNames_modifyConstraint {f : Constraint Float → Constraint Float}
    (hf : ∀ c, (f c).name = c.name) (i : Nat) : (s.modifyConstraint i f).rowNames = s.rowNames :=
  map_modify_of_eq hf ..

variable {s}

theorem lt_of_target_eq_constraint {row : String} {i : Nat}
    (h : s.target row = .ok (.constraint i)) : i < s.problem.constraints.length := by
  unfold target at h
  split at h
  · cases h
  · split at h
    · rename_i hi
      cases h
      exact (List.findIdx?_eq_some_iff_getElem.1 hi).1
    · split at h <;> cases h

end State

/-- The first reader goes on where the second does, and is stopped by the same fault. -/
inductive Mirrors {γ δ : Type} (R : γ → δ → Prop) :
    Except (Halt Fault) γ → Except Fault δ → Prop
  | ok {a : γ} {b : δ} (h : R a b) : Mirrors R (.ok a) (.ok b)
  | fault (f : Fault) : Mirrors R (.error (.fault f)) (.error f)

namespace Mirrors

variable {γ δ γ' δ' : Type} {R : γ → δ → Prop} {S : γ' → δ' → Prop}

theorem bind {x : Except (Halt Fault) γ} {y : Except Fault δ} {f : γ → Except (Halt Fault) γ'}
    {g : δ → Except Fault δ'} (h : Mirrors R x y) (hf : ∀ a b, R a b → Mirrors S (f a) (g b)) :
    Mirrors S (x >>= f) (y >>= g) := by
  cases h with
  | ok h => exact hf _ _ h
  | fault f => exact .fault f

/-- A step that takes nothing from a list is the same for both. -/
theorem sure_bind {y : Except Fault δ} {f : δ → Except (Halt Fault) γ'} {g : δ → Except Fault δ'}
    (hf : ∀ a, y = .ok a → Mirrors S (f a) (g a)) : Mirrors S (sure y >>= f) (y >>= g) := by
  cases y with
  | ok a => exact hf a rfl
  | error f => exact .fault f

theorem map {x : Except (Halt Fault) γ} {y : Except Fault δ} {f : γ → γ'} {g : δ → δ'}
    (h : Mirrors R x y) (hf : ∀ a b, R a b → S (f a) (g b)) : Mirrors S (f <$> x) (g <$> y) := by
  cases h with
  | ok h => exact .ok (hf _ _ h)
  | fault f => exact .fault f

theorem sure_map {y : Except Fault δ} {f : δ → γ'} {g : δ → δ'}
    (hf : ∀ a, y = .ok a → S (f a) (g a)) : Mirrors S (f <$> sure y) (g <$> y) := by
  cases y with
  | ok a => exact .ok (hf a rfl)
  | error f => exact .fault f

end Mirrors

theorem item_eq_ok {γ : Type} {l : List γ} {i : Nat} {a : γ} (h : l[i]? = some a) :
    item l i = .ok a := by
  rw [item, h]

theorem itemsFrom_eq_ok {γ : Type} {l : List γ} {i : Nat} (h : i ≤ l.length) :
    itemsFrom l i = .ok (l.drop i) := by
  rw [itemsFrom, if_pos h]

namespace Tables

/-- Tables of the rows and columns that a state has. -/
structure Describes (t : Tables) (s : State) : Prop where
  state : t.state = s
  rows : Locates t.rows s.rowNames
  columns : Locates t.columns s.names

namespace Describes

variable {t : Tables} {s : State}

theorem empty : Describes {} {} where
  state := rfl
  rows := fun _ => Std.HashMap.getElem?_empty
  columns := fun _ => Std.HashMap.getElem?_empty

/-- A step that leaves the names alone leaves the tables alone. -/
theorem keep (h : t.Describes s) {s' : State} (hr : s'.rowNames = s.rowNames)
    (hc : s'.names = s.names) : Describes { t with state := s' } s' where
  state := rfl
  rows := hr ▸ h.rows
  columns := hc ▸ h.columns

theorem row_eq (h : t.Describes s) (name : String) : t.rows[name]? = s.rowIndex? name := by
  rw [h.rows name, s.rowIndex?_eq_findIdx?]

theorem column_eq (h : t.Describes s) (name : String) :
    t.columns[name]? = s.columnIndex? name := by
  rw [h.columns name, s.columnIndex?_eq_findIdx?]

theorem target_eq (h : t.Describes s) (row : String) : t.target row = s.target row := by
  unfold Tables.target State.target
  cases hi : s.rowIndex? row with
  | none => simp only [h.row_eq, hi, h.state]
  | some i => simp only [h.row_eq, hi, h.state]

theorem addRow (h : t.Describes s) (sense : Sense) (name : String) :
    Mirrors Describes (sure (t.addRow sense name)) (s.addRow sense name) := by
  have hlookup := h.row_eq name
  obtain ⟨rfl, hr, hc⟩ := h
  rw [Tables.addRow, State.addRow, hlookup]
  split
  · exact .fault _
  · rename_i hnew
    have hnone : t.rows[name]? = none := by simpa [hlookup] using hnew
    have hlen : t.state.rowNames.length = t.state.problem.constraints.length :=
      List.length_map ..
    have hrows : (t.state.setProblem fun p => { p with
        constraints := p.constraints ++ [{ sense, terms := [], bound := 0, name }] }).rowNames =
        t.state.rowNames ++ [name] := List.map_append
    exact .ok ⟨rfl, hrows ▸ hlen ▸ hr.insert hnone, hc⟩

theorem readRow (h : t.Describes s) (words : List String) :
    Mirrors Describes (sure (t.readRow words)) (s.readRow words) := by
  rcases words with _ | ⟨kind, _ | ⟨name, _ | ⟨third, rest⟩⟩⟩
  · exact .fault _
  · exact .fault _
  · unfold Tables.readRow State.readRow
    dsimp only
    split_ifs with hfree hless hequal hgreater
    · rw [hfree, h.state]
      refine .ok ?_
      unfold State.addFreeRow
      split <;> exact h.keep rfl rfl
    · rw [hless]
      exact h.addRow ..
    · rw [hequal]
      exact h.addRow ..
    · rw [hgreater]
      exact h.addRow ..
    · split
      · exact absurd ‹_› hfree
      · exact absurd ‹_› hless
      · exact absurd ‹_› hequal
      · exact absurd ‹_› hgreater
      · exact .fault _
  · exact .fault _

theorem declareColumn (h : t.Describes s) (name : String) :
    ∃ t', t.declareColumn name = ((s.declareColumn name).1, t') ∧
      t'.Describes (s.declareColumn name).2 := by
  have hlookup := h.column_eq name
  obtain ⟨rfl, hr, hc⟩ := h
  rw [Tables.declareColumn, State.declareColumn, hlookup]
  cases hi : t.state.columnIndex? name with
  | some i => exact ⟨t, rfl, rfl, hr, hc⟩
  | none =>
    have hlen : t.state.names.length = t.state.problem.columns.length := List.length_map ..
    have hnames : (t.state.setProblem fun p => { p with columns := p.columns ++
        [if t.state.integerBlock then Column.integer name else Column.continuous name] }).names =
        t.state.names ++ [name] := by
      cases t.state.integerBlock <;> exact List.map_append
    exact ⟨_, rfl, rfl, hr, hnames ▸ hlen ▸ hc.insert (hlookup.trans hi)⟩

theorem modifyConstraint (h : t.Describes s) {i : Nat} (hi : i < s.problem.constraints.length)
    {f : Constraint Float → Constraint Float} (hf : ∀ c, (f c).name = c.name) :
    Mirrors Describes (t.modifyConstraint i f) (.ok (s.modifyConstraint i f)) := by
  rw [Tables.modifyConstraint, h.state, item_eq_ok (List.getElem?_eq_getElem hi)]
  exact .ok (h.keep (s.rowNames_modifyConstraint hf i) rfl)

theorem addEntry (h : t.Describes s) (column : Nat) (row : String) (value : Float) :
    Mirrors Describes (t.addEntry column row value) (s.addEntry column row value) := by
  rw [Tables.addEntry, h.target_eq]
  refine .sure_bind fun target htarget => ?_
  split
  · exact .ok h
  · cases target with
    | objective =>
      rw [h.state]
      exact .ok (h.keep rfl rfl)
    | constraint i =>
      exact h.modifyConstraint (State.lt_of_target_eq_constraint htarget) fun _ => rfl
    | nothing => exact .ok h

/-- An even number of words makes whole pairs. -/
theorem addEntries (h : t.Describes s) (column : Nat) {words : List String}
    (heven : words.length % 2 = 0) :
    Mirrors Describes (t.addEntries column (pieces words)) (s.addEntries column words) := by
  induction words using List.twoStepInduction generalizing t s with
  | nil => exact .ok h
  | singleton => cases heven
  | cons_cons row word rest ih _ =>
    refine .sure_bind fun value _ => (h.addEntry column row value).bind fun t' s' h' => ?_
    exact ih h' (by simpa only [List.length_cons, Nat.add_assoc, Nat.add_mod_right] using heven)

theorem setBound (h : t.Describes s) (row : String) (value : Float) :
    Mirrors Describes (t.setBound row value) (s.setBound row value) := by
  rw [Tables.setBound, h.target_eq]
  refine .sure_bind fun target htarget => ?_
  cases target with
  | constraint i =>
    exact h.modifyConstraint (State.lt_of_target_eq_constraint htarget) fun _ => rfl
  | objective | nothing => exact .ok h

theorem setBounds (h : t.Describes s) {words : List String} (heven : words.length % 2 = 0) :
    Mirrors Describes (t.setBounds (pieces words)) (s.setBounds words) := by
  induction words using List.twoStepInduction generalizing t s with
  | nil => exact .ok h
  | singleton => cases heven
  | cons_cons row word rest ih _ =>
    refine .sure_bind fun value _ => (h.setBound row value).bind fun t' s' h' => ?_
    exact ih h' (by simpa only [List.length_cons, Nat.add_assoc, Nat.add_mod_right] using heven)

theorem readMarker (h : t.Describes s) (word : String) :
    Mirrors Describes (sure (t.state.readMarker word) >>= fun s => .ok { t with state := s })
      (s.readMarker word) := by
  rw [h.state]
  unfold State.readMarker
  split
  · exact .ok (h.keep rfl rfl)
  · exact .ok (h.keep rfl rfl)
  · exact .fault _

theorem readColumn (h : t.Describes s) (words : List String) :
    Mirrors Describes (t.readColumn words) (s.readColumn words) := by
  by_cases hlen : words.length < 3
  · have hstate : s.readColumn words = .error .columnShape := by
      unfold State.readColumn
      split
      · simp only [List.length_cons] at hlen
        omega
      · rfl
    rw [hstate, Tables.readColumn, isMarkerLine, if_neg hlen.not_ge, ok_bind,
      if_neg Bool.false_ne_true, if_pos (.inl hlen)]
    exact .fault _
  rcases words with _ | ⟨first, _ | ⟨second, _ | ⟨third, rest⟩⟩⟩
  · exact absurd (by simp) hlen
  · exact absurd (by simp) hlen
  · exact absurd (by simp) hlen
  · have hmarker : isMarkerLine (first :: second :: third :: rest) =
        .ok (State.isMarker second) := by
      rw [isMarkerLine, if_pos (by simp), item_eq_ok rfl]
      rfl
    rw [Tables.readColumn, hmarker, ok_bind, State.readColumn]
    cases State.isMarker second with
    | true =>
      rw [if_pos rfl, if_pos rfl, item_eq_ok rfl, ok_bind]
      exact h.readMarker third
    | false =>
      rw [if_neg Bool.false_ne_true, if_neg Bool.false_ne_true]
      by_cases hodd : rest.length % 2 = 1
      · rw [if_pos hodd, if_pos (.inr (by simp only [List.length_cons]; omega))]
        exact .fault _
      · rw [if_neg hodd, if_neg (by simp only [List.length_cons]; omega)]
        obtain ⟨t', ht, hd⟩ := h.declareColumn first
        rw [item_eq_ok rfl, ok_bind, itemsFrom_eq_ok (by simp), ht]
        have heven : (second :: third :: rest).length % 2 = 0 := by
          simp only [List.length_cons]
          omega
        exact hd.addEntries _ heven

theorem readRightHandSides (h : t.Describes s) (words : List String) :
    Mirrors Describes (t.readRightHandSides words) (s.readRightHandSides words) := by
  obtain ⟨pairs, hpairs, hpairs', heven⟩ : ∃ pairs, withoutSetName words = .ok pairs ∧
      (if words.length % 2 = 1 then words.tail else words) = pairs ∧ pairs.length % 2 = 0 := by
    by_cases hodd : words.length % 2 = 1
    · refine ⟨words.tail, ?_, if_pos hodd, by rw [List.length_tail]; omega⟩
      rw [withoutSetName, if_pos hodd, itemsFrom_eq_ok (by omega), List.drop_one]
    · exact ⟨words, if_neg hodd, if_neg hodd, by omega⟩
  rw [Tables.readRightHandSides, hpairs, ok_bind, State.readRightHandSides, hpairs']
  show Mirrors Describes (if _ then _ else _) (if _ then _ else _)
  split
  · exact .fault _
  · exact h.setBounds heven

end Describes

theorem boundOperands_mirrors (kind : String) (words : List String) :
    Mirrors Eq (boundOperands kind words) (Mps.boundOperands kind words) := by
  have hnumber (column word : String) :
      Mirrors Eq (sure (number word) >>= fun x => .ok (column, x))
        ((number word).map fun x => (column, x)) := by
    cases number word with
    | ok x => exact .ok rfl
    | error f => exact .fault f
  unfold boundOperands Mps.boundOperands
  rcases words with _ | ⟨first, _ | ⟨second, _ | ⟨third, _ | ⟨fourth, _ | ⟨fifth, rest⟩⟩⟩⟩⟩
  all_goals cases valueless kind
  case cons.cons.cons.nil.false => exact hnumber second third
  case cons.cons.cons.cons.nil.false => exact hnumber third fourth
  case cons.cons.nil.true | cons.cons.cons.nil.true | cons.cons.cons.cons.nil.true => exact .ok rfl
  all_goals exact .fault _

namespace Describes

variable {t : Tables} {s : State}

theorem readBound (h : t.Describes s) (words : List String) :
    Mirrors Describes (t.readBound words) (s.readBound words) := by
  refine (boundOperands_mirrors _ words).bind ?_
  rintro ⟨name, value⟩ _ rfl
  dsimp only
  rw [h.column_eq name, h.state]
  cases hi : s.columnIndex? name with
  | none => exact .fault _
  | some i =>
    obtain ⟨hlt, -⟩ := List.findIdx?_eq_some_iff_getElem.1 hi
    have hc := List.getElem?_eq_getElem hlt
    dsimp only
    rw [item_eq_ok hc, ok_bind, hc]
    refine .sure_bind fun d hd => .ok (h.keep rfl ?_)
    have hset := names_set hc (State.name_applyBound hd)
    rw [List.set_eq_modify] at hset
    exact hset

theorem readData (h : t.Describes s) (word : String) (rest : List String) :
    Mirrors Describes (t.readData (word :: rest)) (s.readData (word :: rest)) := by
  unfold Tables.readData State.readData
  rw [h.state]
  cases s.place with
  | direction => exact .sure_map fun d _ => h.keep rfl rfl
  | rows => exact h.readRow _
  | columns => exact h.readColumn _
  | rightHandSides => exact h.readRightHandSides _
  | bounds => exact h.readBound _
  | ranges => exact .fault _
  | start | name => exact .fault _

theorem openSection (h : t.Describes s) {word : String} {rest : List String} {s' : State}
    (hs : s.openSection word rest = .ok (.more s')) : Describes { t with state := s' } s' := by
  obtain ⟨hcolumns, hconstraints⟩ := State.keeps_openSection hs
  exact h.keep (congrArg (List.map Constraint.name) hconstraints)
    (congrArg (List.map Column.name) hcolumns)

/-- What the two readers make of a line. -/
inductive Agree : Problem Float ⊕ Tables → Progress → Prop
  | done (p : Problem Float) : Agree (.inl p) (.done p)
  | more {t : Tables} {s : State} (h : t.Describes s) : Agree (.inr t) (.more s)

theorem readLine (h : t.Describes s) (line : List Char) :
    Mirrors Agree (t.readLine line) (s.readLine line) := by
  unfold Tables.readLine State.readLine
  dsimp only
  rw [← Text.words_trim line]
  cases htrim : Text.trim line with
  | nil => exact .ok (.more h)
  | cons c cs =>
    obtain ⟨w, ws, hwords⟩ := Text.words_cons (Text.not_blank_of_trim_eq_cons htrim) cs
    rw [hwords, List.map_cons]
    dsimp only
    rw [String.toList_ofList, List.head?_cons, List.head?_cons]
    by_cases hc : c = '*'
    · subst hc
      exact .ok (.more h)
    · have hskip : ¬ ((c :: cs).isEmpty || some c = some '*') = true := by simpa using hc
      rw [if_neg hskip, if_neg fun he => hc (Option.some.inj he)]
      split
      · exact (h.readData ..).map fun _ _ => Agree.more
      · rw [item_eq_ok rfl, ok_bind, itemsFrom_eq_ok (by simp), ok_bind, List.drop_succ_cons,
          List.drop_zero, h.state]
        cases hs : s.openSection (String.ofList (c :: w)) (ws.map String.ofList) with
        | error f => exact .fault f
        | ok progress =>
          cases progress with
          | done p => exact .ok (.done p)
          | more s' => exact .ok (.more (h.openSection hs))

theorem readLines (h : t.Describes s) (n : Nat) (lines : List (List Char)) :
    t.readLines n lines = (s.readLines n lines).mapError .fault := by
  induction lines generalizing t s n with
  | nil => rfl
  | cons line rest ih =>
    rw [Tables.readLines, State.readLines]
    have hline := h.readLine line
    generalize t.readLine line = x, s.readLine line = y at hline
    cases hline with
    | fault f => rfl
    | ok hagree =>
      cases hagree with
      | done p => rfl
      | more h' => exact ih h' (n + 1)

end Describes

end Tables

/-- Whatever the text, one of its lines is at fault or a program is read, and no place is looked at
that is not there. The program is regular, and it can be written. -/
theorem read_fault_or_regular (text : String) :
    (∃ line fault, read text = .error (line, fault) ∧
      Tables.read text = .error (.fault (line, fault))) ∨
    ∃ p written, read text = .ok p ∧ Tables.read text = .ok p ∧ Regular (fun _ => True) p ∧
      write p = .ok written := by
  have htables : Tables.read text = (read text).mapError .fault :=
    Tables.Describes.empty.readLines 0 (Text.lines text.toList)
  rw [htables]
  cases hr : read text with
  | error e => exact .inl ⟨e.1, e.2, rfl, rfl⟩
  | ok p =>
    have hp : Regular (fun _ => True) p := regular_of_read trivial trivial (fun _ _ => trivial) hr
    exact .inr ⟨p, _, rfl, rfl, hp, hp.write_eq⟩

end LinearProgram.Mps
