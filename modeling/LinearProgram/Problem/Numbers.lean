import LinearProgram.Problem.Basic

/-! The numbers of a program, and the program that has others in their places. -/

namespace LinearProgram

variable {α β : Type}

namespace Constraint

def numbers (c : Constraint α) : List α :=
  c.bound :: c.terms.map (·.2)

def mapNumbers (f : α → β) (c : Constraint α) : Constraint β where
  sense := c.sense
  terms := c.terms.map fun t => (t.1, f t.2)
  bound := f c.bound
  name := c.name

end Constraint

namespace Column

variable {c : Column α} {x : α}

def numbers (c : Column α) : List α :=
  c.lower.toList ++ c.upper.toList

theorem mem_numbers_of_lower (h : x ∈ c.lower) : x ∈ c.numbers :=
  List.mem_append_left _ (Option.mem_toList.2 h)

theorem mem_numbers_of_upper (h : x ∈ c.upper) : x ∈ c.numbers :=
  List.mem_append_right _ (Option.mem_toList.2 h)

def mapNumbers (f : α → β) (c : Column α) : Column β where
  type := c.type
  lower := c.lower.map f
  upper := c.upper.map f
  name := c.name

end Column

namespace Config

variable {c : Config α} {x : α}

def numbers (c : Config α) : List α :=
  c.timeLimit.toList ++ c.gapTolerance.toList

theorem mem_numbers_of_timeLimit (h : x ∈ c.timeLimit) : x ∈ c.numbers :=
  List.mem_append_left _ (Option.mem_toList.2 h)

theorem mem_numbers_of_gapTolerance (h : x ∈ c.gapTolerance) : x ∈ c.numbers :=
  List.mem_append_right _ (Option.mem_toList.2 h)

def mapNumbers (f : α → β) (c : Config α) : Config β where
  solver := c.solver
  timeLimit := c.timeLimit.map f
  gapTolerance := c.gapTolerance.map f
  verbose := c.verbose

end Config

namespace Problem

def numbers (p : Problem α) : List α :=
  p.objective.terms.map (·.2) ++ p.constraints.flatMap Constraint.numbers ++
    p.columns.flatMap Column.numbers ++ p.config.numbers

def mapNumbers (f : α → β) (p : Problem α) : Problem β where
  name := p.name
  objective := ⟨p.objective.direction, p.objective.terms.map fun t => (t.1, f t.2)⟩
  constraints := p.constraints.map (Constraint.mapNumbers f)
  columns := p.columns.map (Column.mapNumbers f)
  config := p.config.mapNumbers f

section Members

variable {p : Problem α} {x : α}

theorem mem_numbers_of_objective {t : Nat × α} (h : t ∈ p.objective.terms) : t.2 ∈ p.numbers := by
  simp only [numbers, List.mem_append]
  exact .inl (.inl (.inl (List.mem_map_of_mem h)))

theorem mem_numbers_of_constraint {c : Constraint α} (hc : c ∈ p.constraints) (h : x ∈ c.numbers) :
    x ∈ p.numbers := by
  simp only [numbers, List.mem_append]
  exact .inl (.inl (.inr (List.mem_flatMap_of_mem hc h)))

theorem mem_numbers_of_column {c : Column α} (hc : c ∈ p.columns) (h : x ∈ c.numbers) :
    x ∈ p.numbers := by
  simp only [numbers, List.mem_append]
  exact .inl (.inr (List.mem_flatMap_of_mem hc h))

theorem mem_numbers_of_config (h : x ∈ p.config.numbers) : x ∈ p.numbers := by
  simp only [numbers, List.mem_append]
  exact .inr h

end Members

end Problem

section Fixed

variable {f : α → α}

theorem Terms.map_eq_self {ts : Terms α} (h : ∀ t ∈ ts, f t.2 = t.2) :
    (ts.map fun t => (t.1, f t.2)) = ts := by
  rw [List.map_congr_left (g := id) fun t ht => by rw [h t ht]; rfl, List.map_id]

theorem map_eq_self {x : Option α} (h : ∀ y ∈ x, f y = y) : x.map f = x := by
  cases x with
  | none => rfl
  | some y => rw [Option.map_some, h y rfl]

theorem Column.mapNumbers_eq_self {c : Column α} (h : ∀ x ∈ c.numbers, f x = x) :
    c.mapNumbers f = c := by
  rw [mapNumbers, map_eq_self fun y hy => h y (mem_numbers_of_lower hy),
    map_eq_self fun y hy => h y (mem_numbers_of_upper hy)]

theorem Constraint.mapNumbers_id (c : Constraint α) : c.mapNumbers id = c := by
  rw [mapNumbers, Terms.map_eq_self fun _ _ => rfl]
  rfl

theorem Problem.mapNumbers_id (p : Problem α) : p.mapNumbers id = p := by
  have hcolumn (c : Column α) : c.mapNumbers id = c := Column.mapNumbers_eq_self fun _ _ => rfl
  have hconfig : p.config.mapNumbers id = p.config := by
    rw [Config.mapNumbers, Option.map_id]
    rfl
  rw [mapNumbers, Terms.map_eq_self fun _ _ => rfl, funext Constraint.mapNumbers_id,
    funext hcolumn, hconfig, List.map_id', List.map_id']

end Fixed

end LinearProgram
