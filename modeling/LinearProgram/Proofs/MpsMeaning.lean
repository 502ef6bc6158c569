import LinearProgram.Proofs.MpsStates

/-! What a file means whose rows have different names. A name stands for the same row wherever it
is used, so the order of the sections makes no difference to the coefficients of a row. -/

namespace LinearProgram.Mps

namespace Stated

def termsOn (fs : List Statement) (row : String) : List (Nat × Float) :=
  fs.filterMap fun
    | .entry column r value =>
      if r = row ∧ (value == 0) = false then some ((columnNames fs).idxOf column, value) else none
    | _ => none

def sidesOf (fs : List Statement) (row : String) : List Float :=
  fs.filterMap fun
    | .rightHandSide r value => if r = row then some value else none
    | _ => none

/-- The constraint that a row means, whatever stands before what. -/
def meantBy (fs : List Statement) (r : Sense × String) : Constraint Float where
  sense := r.1
  terms := termsOn fs r.2
  bound := (sidesOf fs r.2).getLast?.getD 0
  name := r.2

/-- The program that statements mean. The first free row is the objective, and the others are not
part of it. -/
structure Means (fs : List Statement) (p : Problem Float) : Prop where
  name : p.name = title fs
  direction : p.objective.direction = direction fs
  objective : p.objective.terms = ((freeRowNames fs).head?.map (termsOn fs)).getD []
  constraints : p.constraints = (rows fs).map (meantBy fs)
  columns : p.columns = (columnNames fs).map (columnOf fs)
  config : p.config = {}

variable {fs earlier : List Statement} {row name : String}

theorem Sound.entry (hs : Sound fs) {column : String} {value : Float}
    (h : earlier ++ [.entry column row value] <+: fs) :
    column ∈ columnNames earlier ∧ row ∈ rowNames earlier :=
  hs earlier _ h

theorem Sound.rightHandSide (hs : Sound fs) {value : Float}
    (h : earlier ++ [.rightHandSide row value] <+: fs) : row ∈ rowNames earlier :=
  hs earlier _ h

theorem prefix_columnNames (h : earlier <+: fs) : columnNames earlier <+: columnNames fs := by
  obtain ⟨later, rfl⟩ := h
  rw [columnNames, columnNames, List.filterMap_append, List.eraseDups_append]
  exact List.prefix_append _ _

/-- A column keeps its number. -/
theorem idxOf_columnNames (h : earlier <+: fs) (hn : name ∈ columnNames earlier) :
    (columnNames earlier).idxOf name = (columnNames fs).idxOf name := by
  obtain ⟨later, hlater⟩ := prefix_columnNames h
  rw [← hlater, List.idxOf_append_of_mem hn]

theorem rowNames_perm (fs : List Statement) :
    (rowNames fs).Perm (freeRowNames fs ++ constraintNames fs) := by
  induction fs with
  | nil => exact .nil
  | cons x fs ih =>
    cases x with
    | freeRow name => exact ih.cons name
    | row sense name => exact (ih.cons name).trans List.perm_middle.symm
    | _ => exact ih

/-- No name is that of a free row and of a constraint. -/
theorem not_mem_constraintNames (hnames : (rowNames fs).Nodup) (h : name ∈ freeRowNames fs) :
    name ∉ constraintNames fs := by
  have hboth := (rowNames_perm fs).nodup_iff.1 hnames
  exact fun hc => (List.nodup_append.1 hboth).2.2 name h name hc rfl

theorem prefix_freeRowNames (h : earlier <+: fs) : freeRowNames earlier <+: freeRowNames fs :=
  h.filterMap _

/-- There is no first free row before it is declared, and no other afterwards. -/
theorem head?_freeRowNames (h : earlier <+: fs) (hn : name ∈ freeRowNames earlier) :
    (freeRowNames earlier).head? = (freeRowNames fs).head? := by
  obtain ⟨later, hlater⟩ := prefix_freeRowNames h
  rw [← hlater, List.head?_append_of_ne_nil _ (List.ne_nil_of_mem hn)]

theorem head?_of_toObjective (h : earlier <+: fs) (hgoes : toObjective earlier row = true) :
    (freeRowNames fs).head? = some row := by
  have hhead := toObjective_eq.1 hgoes
  rw [← head?_freeRowNames h (List.mem_of_mem_head? hhead), hhead]

/-- Once a row is declared, its name is credited to the objective just if it is the first free row,
provided that this is not a constraint as well. -/
theorem toObjective_iff (hfirst : ∀ first ∈ (freeRowNames fs).head?, first ∉ constraintNames fs)
    (h : earlier <+: fs) (hrow : row ∈ rowNames earlier) :
    toObjective earlier row = true ↔ (freeRowNames fs).head? = some row := by
  refine ⟨head?_of_toObjective h, fun hhead => ?_⟩
  have hfree : row ∈ freeRowNames earlier := by
    rcases mem_rowNames.1 hrow with hfree | hconstraint
    · exact hfree
    · exact absurd (constraintNames_subset h hconstraint) (hfirst row hhead)
  rw [toObjective_eq, head?_freeRowNames h hfree, hhead]

/-- The name of a constraint is always credited to it if no free row has the name as well. -/
theorem toConstraint_iff (hname : name ∉ freeRowNames fs) (h : earlier <+: fs)
    (hrow : row ∈ rowNames earlier) : toConstraint name earlier row = true ↔ row = name := by
  simp only [toConstraint, decide_eq_true_iff]
  refine ⟨fun hgoes => hgoes.1, ?_⟩
  rintro rfl
  have hfree : row ∉ freeRowNames earlier := fun hfree =>
    hname ((prefix_freeRowNames h).subset hfree)
  refine ⟨rfl, Bool.eq_false_iff.2 fun hgoes => ?_, (mem_rowNames.1 hrow).resolve_left hfree⟩
  exact hfree (List.mem_of_mem_head? (toObjective_eq.1 hgoes))

/-- Where names are credited to a row just if they are its name, its terms are those on it. -/
theorem gather_term (hs : Sound fs) {goes : List Statement → String → Bool}
    (hgoes : ∀ earlier column row value, earlier ++ [.entry column row value] <+: fs →
      (goes earlier row = true ↔ row = name)) :
    gather (term? goes) fs = termsOn fs name := by
  refine gather_eq_filterMap fun earlier x hx => ?_
  have hprefix : earlier <+: fs := (List.prefix_append _ _).trans hx
  have hrefers := hs earlier x hx
  cases x with
  | entry column row value =>
    simp only [term?, hgoes earlier column row value hx, idxOf_columnNames hprefix hrefers.1]
  | _ => rfl

theorem gather_side {goes : List Statement → String → Bool}
    (hgoes : ∀ earlier row value, earlier ++ [.rightHandSide row value] <+: fs →
      (goes earlier row = true ↔ row = name)) :
    gather (side? goes) fs = sidesOf fs name := by
  refine gather_eq_filterMap fun earlier x hx => ?_
  cases x with
  | rightHandSide row value => simp only [side?, hgoes earlier row value hx]
  | _ => rfl

theorem constraintOf_eq (hs : Sound fs) {r : Sense × String} (hr : r.2 ∉ freeRowNames fs) :
    constraintOf fs r = meantBy fs r := by
  have hterms : gather (term? (toConstraint r.2)) fs = termsOn fs r.2 :=
    gather_term hs fun earlier _ _ _ hx =>
      toConstraint_iff hr ((List.prefix_append _ _).trans hx) (hs.entry hx).2
  have hsides : gather (side? (toConstraint r.2)) fs = sidesOf fs r.2 :=
    gather_side fun earlier _ _ hx =>
      toConstraint_iff hr ((List.prefix_append _ _).trans hx) (hs.rightHandSide hx)
  rw [constraintOf, hterms, hsides, meantBy]

theorem objectiveTerms_eq (hs : Sound fs)
    (hfirst : ∀ first ∈ (freeRowNames fs).head?, first ∉ constraintNames fs) :
    objectiveTerms fs = ((freeRowNames fs).head?.map (termsOn fs)).getD [] := by
  have hgoes {earlier : List Statement} {column row : String} {value : Float}
      (hx : earlier ++ [.entry column row value] <+: fs) :
      toObjective earlier row = true ↔ (freeRowNames fs).head? = some row :=
    toObjective_iff hfirst ((List.prefix_append _ _).trans hx) (hs.entry hx).2
  cases hhead : (freeRowNames fs).head? with
  | some name =>
    refine gather_term hs fun earlier column row value hx => (hgoes hx).trans ?_
    rw [hhead, Option.some.injEq, eq_comm]
  | none =>
    have hnone : gather (term? toObjective) fs = fs.filterMap fun _ => none := by
      refine gather_eq_filterMap fun earlier x hx => ?_
      cases x with
      | entry column row value =>
        have hnot : ¬ toObjective earlier row = true := by
          rw [hgoes hx, hhead]
          exact nofun
        simp [term?, hnot]
      | _ => rfl
    rw [objectiveTerms, hnone]
    simp

end Stated

open Stated in
theorem State.After.means {fs : List Statement} {s : State} (h : s.After fs)
    (hnames : (Stated.rowNames fs).Nodup) : Means fs s.problem where
  name := congrArg Header.title h.header
  direction := congrArg Header.direction h.header
  objective := h.rows.objective.trans <| objectiveTerms_eq h.sound fun _ hfirst =>
    not_mem_constraintNames hnames (List.mem_of_mem_head? hfirst)
  constraints := h.rows.constraints.trans <| List.map_congr_left fun _ hr =>
    constraintOf_eq h.sound fun hfree =>
      not_mem_constraintNames hnames hfree (List.mem_map_of_mem hr)
  columns := by
    rw [← h.columns.names, State.names, List.map_map]
    exact (List.map_id _).symm.trans (List.map_congr_left fun c hc => (h.columns.columns c hc).symm)
  config := congrArg Header.config h.header

/-- What is read from a file whose rows have different names is what the file means, whatever the
order of its sections. -/
theorem means_of_read {text : String} {p : Problem Float} (hr : read text = .ok p)
    (hnames : (Stated.rowNames (statements text)).Nodup) : Stated.Means (statements text) p := by
  obtain ⟨s, hs, rfl⟩ := after_of_read hr
  exact hs.means hnames

/-- The direction comes last, the second free row has a pair, a column is taken up again after a
block of integer columns has begun, large numbers stand on the right-hand side and in bounds, and
each column is bound twice. -/
def shuffled : String :=
  "ROWS\n N cost\n G cover\n N spare\nCOLUMNS\n x cost 1\n M1 MARKER INTORG\n y spare 4\n" ++
  " x cover 2\nRHS\n set cover 1e30\nBOUNDS\n FR b y\n UP x 1e30\n li b x -4\n FX y -1e30\n" ++
  "OBJSENSE\n max\nENDATA\n"

theorem means_of_read_shuffled : (Stated.rowNames (statements shuffled)).Nodup ∧
    ∃ p, read shuffled = .ok p ∧ Stated.Means (statements shuffled) p := by
  have hnames : (Stated.rowNames (statements shuffled)).Nodup := by decide +kernel
  have hread : (read shuffled).toOption.isSome = true := by decide +kernel
  obtain ⟨p, hp⟩ := Option.isSome_iff_exists.1 hread
  exact ⟨hnames, p, eq_ok_of_mem_toOption hp, means_of_read (eq_ok_of_mem_toOption hp) hnames⟩

end LinearProgram.Mps
