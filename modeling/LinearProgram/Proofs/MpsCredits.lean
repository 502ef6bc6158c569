import LinearProgram.Proofs.MpsStatements

/-! What the statements of a file add up to. A row name stands for what it was declared as so far,
so a coefficient or a right-hand side is credited in the light of the statements before it. -/

namespace LinearProgram.Mps

namespace Statement

def title? : Statement → Option String
  | title name => some name
  | _ => none

def direction? : Statement → Option Direction
  | direction d => some d
  | _ => none

def marker? : Statement → Option Bool
  | marker opens => some opens
  | _ => none

def freeRow? : Statement → Option String
  | freeRow name => some name
  | _ => none

def row? : Statement → Option (Sense × String)
  | row sense name => some (sense, name)
  | _ => none

/-- The name of a row of any type. -/
def rowName? : Statement → Option String
  | freeRow name | row _ name => some name
  | _ => none

def column? : Statement → Option String
  | column name => some name
  | _ => none

def boundOn? (name : String) : Statement → Option StatedBound
  | bound c b => if c = name then some b else none
  | _ => none

end Statement

/-- A coefficient or a right-hand side. -/
def Statement.IsCredit : Statement → Prop
  | .entry .. | .rightHandSide .. => True
  | _ => False

namespace Stated

def title (fs : List Statement) : String :=
  (fs.filterMap Statement.title?).getLast?.getD ""

def direction (fs : List Statement) : Direction :=
  (fs.filterMap Statement.direction?).getLast?.getD .minimize

/-- The last marker opens a block. -/
def insideBlock (fs : List Statement) : Bool :=
  (fs.filterMap Statement.marker?).getLast?.getD false

def freeRowNames (fs : List Statement) : List String :=
  fs.filterMap Statement.freeRow?

def rows (fs : List Statement) : List (Sense × String) :=
  fs.filterMap Statement.row?

def constraintNames (fs : List Statement) : List String :=
  (rows fs).map (·.2)

def rowNames (fs : List Statement) : List String :=
  fs.filterMap Statement.rowName?

/-- The columns by their first lines. -/
def columnNames (fs : List Statement) : List String :=
  (fs.filterMap Statement.column?).eraseDups

/-- The first line of a column stands inside a block. -/
def declaredInside (fs : List Statement) (name : String) : Bool :=
  insideBlock (fs.takeWhile fun x => x.column? ≠ some name)

def boundsOn (fs : List Statement) (name : String) : List StatedBound :=
  fs.filterMap (Statement.boundOn? name)

/-- The column that the statements with its name mean. -/
def columnOf (fs : List Statement) (name : String) : Column Float :=
  StatedBound.column (declaredInside fs name) (boundsOn fs name) name

/-- What statements contribute, each in the light of those before it. -/
def gatherFrom {γ : Type} (f : List Statement → Statement → Option γ) (earlier : List Statement) :
    List Statement → List γ
  | [] => []
  | x :: later => (f earlier x).toList ++ gatherFrom f (earlier ++ [x]) later

def gather {γ : Type} (f : List Statement → Statement → Option γ) (fs : List Statement) : List γ :=
  gatherFrom f [] fs

/-- The name means the objective. -/
def toObjective (earlier : List Statement) (row : String) : Bool :=
  (freeRowNames earlier).head? = some row

/-- The name means the constraint that has it. -/
def toConstraint (name : String) (earlier : List Statement) (row : String) : Bool :=
  row = name ∧ toObjective earlier row = false ∧ row ∈ constraintNames earlier

def term? (goes : List Statement → String → Bool) (earlier : List Statement) :
    Statement → Option (Nat × Float)
  | .entry column row value =>
    if goes earlier row ∧ (value == 0) = false then
      some ((columnNames earlier).idxOf column, value)
    else none
  | _ => none

def side? (goes : List Statement → String → Bool) (earlier : List Statement) :
    Statement → Option Float
  | .rightHandSide row value => if goes earlier row then some value else none
  | _ => none

def objectiveTerms (fs : List Statement) : List (Nat × Float) :=
  gather (term? toObjective) fs

def constraintOf (fs : List Statement) (r : Sense × String) : Constraint Float where
  sense := r.1
  terms := gather (term? (toConstraint r.2)) fs
  bound := (gather (side? (toConstraint r.2)) fs).getLast?.getD 0
  name := r.2

/-- What a statement refers to is there before it. -/
def Refers (earlier : List Statement) : Statement → Prop
  | .entry column row _ => column ∈ columnNames earlier ∧ row ∈ rowNames earlier
  | .rightHandSide row _ => row ∈ rowNames earlier
  | .bound column _ => column ∈ columnNames earlier
  | _ => True

def Sound (fs : List Statement) : Prop :=
  ∀ earlier x, earlier ++ [x] <+: fs → Refers earlier x

variable {fs : List Statement} {x : Statement} {name : String}

theorem filterMap_concat {γ δ : Type} (f : γ → Option δ) (l : List γ) (a : γ) :
    (l ++ [a]).filterMap f = l.filterMap f ++ (f a).toList := by
  rw [List.filterMap_append]
  cases h : f a <;> simp [h]

theorem gather_concat {γ : Type} (f : List Statement → Statement → Option γ)
    (fs : List Statement) (x : Statement) :
    gather f (fs ++ [x]) = gather f fs ++ (f fs x).toList := by
  have hfrom (earlier : List Statement) : gatherFrom f earlier (fs ++ [x]) =
      gatherFrom f earlier fs ++ (f (earlier ++ fs) x).toList := by
    induction fs generalizing earlier with
    | nil => simp [gatherFrom]
    | cons y fs ih => simp [gatherFrom, ih]
  exact hfrom []

theorem gather_eq_filterMap {γ : Type} {f : List Statement → Statement → Option γ}
    {g : Statement → Option γ} (h : ∀ earlier x, earlier ++ [x] <+: fs → f earlier x = g x) :
    gather f fs = fs.filterMap g := by
  induction fs using List.reverseRecOn with
  | nil => rfl
  | append_singleton fs x ih =>
    have hx := h fs x (List.prefix_refl _)
    have ih := ih fun earlier y hy => h earlier y (hy.trans (List.prefix_append _ _))
    rw [gather_concat, ih, hx, filterMap_concat]

theorem Sound.nil : Sound [] := by
  intro earlier x h
  simp at h

theorem Sound.concat (h : Sound fs) (hx : Refers fs x) : Sound (fs ++ [x]) := by
  intro earlier y hy
  rcases List.prefix_concat_iff.1 hy with he | hy
  · obtain ⟨rfl, hyx⟩ := List.append_inj' he rfl
    exact List.singleton_inj.1 hyx ▸ hx
  · exact h earlier y hy

theorem mem_columnNames : name ∈ columnNames fs ↔ ∃ x ∈ fs, x.column? = some name := by
  rw [columnNames, List.mem_eraseDups, List.mem_filterMap]

theorem columnNames_concat (fs : List Statement) (x : Statement) :
    columnNames (fs ++ [x]) = columnNames fs ++
      x.column?.toList.filter fun name => name ∉ columnNames fs := by
  rw [columnNames, List.filterMap_append, List.eraseDups_append]
  refine congrArg (columnNames fs ++ ·) ?_
  cases hx : x.column? with
  | none => simp [hx, List.removeAll]
  | some name =>
    by_cases hn : name ∈ columnNames fs
    · simp [hx, hn, List.removeAll, mem_columnNames.1 hn]
    · simp only [List.removeAll, hx, List.filterMap_cons, List.filterMap_nil]
      simp [List.eraseDups_cons, ← mem_columnNames, hn]

theorem nodup_columnNames (fs : List Statement) : (columnNames fs).Nodup := by
  induction fs using List.reverseRecOn with
  | nil => exact List.nodup_nil
  | append_singleton fs x ih =>
    rw [columnNames_concat]
    cases x.column? with
    | none => simpa using ih
    | some name =>
      by_cases hn : name ∈ columnNames fs
      · simpa [hn] using ih
      · simpa [hn, ← List.concat_eq_append] using ih.concat hn

theorem declaredInside_concat (h : name ∈ columnNames fs) (x : Statement) :
    declaredInside (fs ++ [x]) name = declaredInside fs name := by
  obtain ⟨y, hy, hn⟩ := mem_columnNames.1 h
  have hshort : (fs.takeWhile fun x => x.column? ≠ some name).length ≠ fs.length := by
    intro he
    have hall := List.takeWhile_eq_self_iff.1 ((List.takeWhile_prefix _).eq_of_length he)
    simpa [hn] using hall y hy
  rw [declaredInside, List.takeWhile_append, if_neg hshort, declaredInside]

theorem declaredInside_column (h : name ∉ columnNames fs) :
    declaredInside (fs ++ [.column name]) name = insideBlock fs := by
  have hall : ∀ x ∈ fs, decide (x.column? ≠ some name) = true := fun x hx =>
    decide_eq_true fun hn => h (mem_columnNames.2 ⟨x, hx, hn⟩)
  rw [declaredInside, List.takeWhile_append_of_pos hall]
  simp [Statement.column?]

theorem columnOf_concat (h : name ∈ columnNames fs) (x : Statement) :
    columnOf (fs ++ [x]) name =
      ((x.boundOn? name).map fun b => b.impose (columnOf fs name)).getD (columnOf fs name) := by
  rw [columnOf, boundsOn, filterMap_concat, declaredInside_concat h, columnOf, boundsOn]
  cases x.boundOn? name with
  | none => rw [Option.toList_none, List.append_nil]; rfl
  | some b => exact StatedBound.column_concat _ _ b name

theorem toObjective_eq : toObjective fs name = true ↔ (freeRowNames fs).head? = some name :=
  decide_eq_true_iff

theorem constraintNames_subset {earlier : List Statement} (h : earlier <+: fs) :
    constraintNames earlier ⊆ constraintNames fs :=
  ((h.filterMap _).map _).subset

theorem mem_constraintNames : name ∈ constraintNames fs ↔ ∃ sense, .row sense name ∈ fs := by
  constructor
  · intro h
    obtain ⟨⟨sense, n⟩, hr, rfl⟩ := List.mem_map.1 h
    obtain ⟨x, hx, hrow⟩ := List.mem_filterMap.1 hr
    cases x with
    | row =>
      cases hrow
      exact ⟨sense, hx⟩
    | _ => cases hrow
  · rintro ⟨sense, h⟩
    exact List.mem_map.2 ⟨(sense, name), List.mem_filterMap.2 ⟨_, h, rfl⟩, rfl⟩

theorem mem_rowNames : name ∈ rowNames fs ↔ name ∈ freeRowNames fs ∨ name ∈ constraintNames fs := by
  rw [rowNames, freeRowNames, mem_constraintNames, List.mem_filterMap, List.mem_filterMap]
  constructor
  · rintro ⟨x, hx, hn⟩
    cases x with
    | freeRow n => exact .inl ⟨_, hx, hn⟩
    | row sense n =>
      cases hn
      exact .inr ⟨sense, hx⟩
    | _ => cases hn
  · rintro (⟨x, hx, hn⟩ | ⟨sense, hx⟩)
    · cases x with
      | freeRow n => exact ⟨_, hx, hn⟩
      | _ => cases hn
    · exact ⟨_, hx, rfl⟩

/-- What a statement does to a constraint. -/
def credit (fs : List Statement) (x : Statement) (c : Constraint Float) : Constraint Float :=
  { c with
    terms := c.terms ++ (term? (toConstraint c.name) fs x).toList
    bound := (side? (toConstraint c.name) fs x).getD c.bound }

theorem constraintOf_concat (fs : List Statement) (x : Statement) (r : Sense × String) :
    constraintOf (fs ++ [x]) r = credit fs x (constraintOf fs r) := by
  simp only [constraintOf, credit, gather_concat]
  cases side? (toConstraint r.2) fs x <;> simp

theorem credit_entry (fs : List Statement) (column row : String) (value : Float)
    (c : Constraint Float) : credit fs (.entry column row value) c =
      if toConstraint c.name fs row ∧ (value == 0) = false then
        { c with terms := c.terms ++ [((columnNames fs).idxOf column, value)] }
      else c := by
  by_cases h : toConstraint c.name fs row ∧ (value == 0) = false
  · simp [credit, term?, side?, h]
  · simp only [credit, term?, side?, if_neg h]
    simp

theorem credit_rightHandSide (fs : List Statement) (row : String) (value : Float)
    (c : Constraint Float) : credit fs (.rightHandSide row value) c =
      if toConstraint c.name fs row then { c with bound := value } else c := by
  by_cases h : toConstraint c.name fs row = true
  · simp [credit, term?, side?, h]
  · simp [credit, term?, side?, h]

theorem map_credit_of_forall (h : ∀ c, credit fs x c = c) (l : List (Constraint Float)) :
    l.map (credit fs x) = l :=
  (List.map_congr_left fun c _ => h c).trans (List.map_id' l)

theorem credit_of_none (ht : ∀ goes, term? goes fs x = none) (hs : ∀ goes, side? goes fs x = none)
    (c : Constraint Float) : credit fs x c = c := by
  simp [credit, ht, hs]

theorem constraintOf_of_forall
    (hentry : ∀ earlier column row value, earlier ++ [.entry column row value] <+: fs →
      toConstraint name earlier row = false)
    (hside : ∀ earlier row value, earlier ++ [.rightHandSide row value] <+: fs →
      toConstraint name earlier row = false) (sense : Sense) :
    constraintOf fs (sense, name) = { sense, terms := [], bound := 0, name } := by
  have hterms : gather (term? (toConstraint name)) fs = fs.filterMap fun _ => none := by
    refine gather_eq_filterMap fun earlier x hx => ?_
    cases x with
    | entry column row value => simp [term?, hentry _ _ _ _ hx]
    | _ => rfl
  have hsides : gather (side? (toConstraint name)) fs = fs.filterMap fun _ => none := by
    refine gather_eq_filterMap fun earlier x hx => ?_
    cases x with
    | rightHandSide row value => simp [side?, hside _ _ _ hx]
    | _ => rfl
  simp [constraintOf, hterms, hsides]

/-- A row that is not declared yet has nothing yet. -/
theorem constraintOf_of_not_mem (h : name ∉ constraintNames fs) (sense : Sense) :
    constraintOf fs (sense, name) = { sense, terms := [], bound := 0, name } := by
  have hgoes {earlier : List Statement} {x : Statement} (hx : earlier ++ [x] <+: fs)
      (row : String) : toConstraint name earlier row = false := by
    have hprefix : earlier <+: fs := (List.prefix_append _ _).trans hx
    have hnot : name ∉ constraintNames earlier := fun hm => h (constraintNames_subset hprefix hm)
    simp only [toConstraint, decide_eq_false_iff_not]
    rintro ⟨rfl, -, hm⟩
    exact hnot hm
  exact constraintOf_of_forall (fun _ _ row _ hx => hgoes hx row) (fun _ row _ hx => hgoes hx row)
    sense

end Stated

end LinearProgram.Mps
