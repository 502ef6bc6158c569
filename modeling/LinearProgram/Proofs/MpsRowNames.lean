import LinearProgram.Proofs.MpsMeaning
import LinearProgram.Proofs.MpsPrefixes
import Mathlib.Data.List.Duplicate

/-! Rows of one name. Two constraints of one name are refused. A free row may share the name of a
constraint, and if it is the objective, then what is stated for the name goes to the objective and
the constraint stays empty. -/

namespace LinearProgram.Mps

namespace Stated

/-- A coefficient or a right-hand side for rows of this name. -/
def Uses (name : String) : Statement → Prop
  | .entry _ row _ | .rightHandSide row _ => row = name
  | _ => False

instance (name : String) : DecidablePred (Uses name) := fun x =>
  match x with
  | .entry _ row _ => inferInstanceAs (Decidable (row = name))
  | .rightHandSide row _ => inferInstanceAs (Decidable (row = name))
  | .title _ | .direction _ | .freeRow _ | .row _ _ | .marker _ | .column _ | .bound _ _ =>
    inferInstanceAs (Decidable False)

/-- No row of the name is declared after it is used. -/
def DeclaredFirst (fs : List Statement) (name : String) : Prop :=
  ∀ earlier x later, fs = earlier ++ x :: later → Uses name x → name ∉ rowNames later

variable {fs earlier : List Statement} {x : Statement} {row name : String}

namespace DeclaredFirst

variable (h : DeclaredFirst fs name) (hx : earlier ++ [x] <+: fs) (hu : Uses name x)
include h hx hu

theorem mem_freeRowNames (hn : name ∈ freeRowNames fs) : name ∈ freeRowNames earlier := by
  obtain ⟨later, hfs⟩ := hx
  rw [List.append_assoc, List.singleton_append] at hfs
  have hnot := h earlier x later hfs.symm hu
  have hnone : x.freeRow? = none := by cases x <;> first | rfl | exact hu.elim
  rw [← hfs, freeRowNames, List.filterMap_append, List.filterMap_cons_none hnone] at hn
  exact (List.mem_append.1 hn).resolve_right fun hl => hnot (mem_rowNames.2 (.inl hl))

theorem mem_constraintNames (hn : name ∈ constraintNames fs) : name ∈ constraintNames earlier := by
  obtain ⟨later, hfs⟩ := hx
  rw [List.append_assoc, List.singleton_append] at hfs
  have hnot := h earlier x later hfs.symm hu
  have hnone : x.row? = none := by cases x <;> first | rfl | exact hu.elim
  rw [← hfs, constraintNames, rows, List.filterMap_append, List.filterMap_cons_none hnone,
    List.map_append] at hn
  exact (List.mem_append.1 hn).resolve_right fun hl => hnot (mem_rowNames.2 (.inr hl))

theorem toObjective_iff :
    toObjective earlier name = true ↔ (freeRowNames fs).head? = some name := by
  have hprefix : earlier <+: fs := (List.prefix_append _ _).trans hx
  refine ⟨head?_of_toObjective hprefix, fun hhead => ?_⟩
  have hfree := h.mem_freeRowNames hx hu (List.mem_of_mem_head? hhead)
  rw [toObjective_eq, head?_freeRowNames hprefix hfree, hhead]

end DeclaredFirst

/-- So it is where all rows stand before all uses. -/
theorem declaredFirst_of_sections {declared used : List Statement}
    (hd : ∀ x ∈ declared, ¬ Uses name x) (hu : name ∉ rowNames used) :
    DeclaredFirst (declared ++ used) name := by
  intro earlier x later hfs hx hn
  have hlater : later <:+ used := by
    rcases List.append_eq_append_iff.1 hfs with ⟨between, rfl, hused⟩ | ⟨between, rfl, hused⟩
    · exact ⟨between ++ [x], by simp [hused]⟩
    · cases between with
      | nil => exact ⟨[x], by simpa using hused⟩
      | cons y between =>
        obtain ⟨rfl, -⟩ := List.cons.inj hused
        exact absurd hx (hd x (by simp))
  exact hu ((hlater.filterMap _).subset hn)

/-- A constraint that shares its name with the objective gets nothing of what is stated for it. -/
theorem constraintOf_of_first (h : DeclaredFirst fs name)
    (hfirst : (freeRowNames fs).head? = some name) (sense : Sense) :
    constraintOf fs (sense, name) = { sense, terms := [], bound := 0, name } := by
  have hgoes {earlier : List Statement} {x : Statement} (hx : earlier ++ [x] <+: fs) {row : String}
      (hrow : row = name → Uses name x) : toConstraint name earlier row = false := by
    simp only [toConstraint, decide_eq_false_iff_not]
    rintro ⟨rfl, hnot, -⟩
    rw [(h.toObjective_iff hx (hrow rfl)).2 hfirst] at hnot
    cases hnot
  exact constraintOf_of_forall (fun _ _ _ _ hx => hgoes hx fun hrow => hrow)
    (fun _ _ _ hx => hgoes hx fun hrow => hrow) sense

/-- The objective gets it all. -/
theorem objectiveTerms_of_first (hs : Sound fs) (h : DeclaredFirst fs name)
    (hfirst : (freeRowNames fs).head? = some name) : objectiveTerms fs = termsOn fs name := by
  refine gather_term hs fun earlier column row value hx => ⟨fun hgoes => ?_, ?_⟩
  · have hhead := head?_of_toObjective ((List.prefix_append _ _).trans hx) hgoes
    exact Option.some.inj (hhead.symm.trans hfirst)
  · rintro rfl
    exact (h.toObjective_iff hx rfl).2 hfirst

/-- Other constraints get what is stated for them, whatever free rows share their names. -/
theorem constraintOf_of_not_first (hs : Sound fs) {r : Sense × String} (hr : r ∈ rows fs)
    (h : DeclaredFirst fs r.2) (hfirst : (freeRowNames fs).head? ≠ some r.2) :
    constraintOf fs r = meantBy fs r := by
  have hgoes {earlier : List Statement} {x : Statement} (hx : earlier ++ [x] <+: fs) {row : String}
      (hrow : row = r.2 → Uses r.2 x) : toConstraint r.2 earlier row = true ↔ row = r.2 := by
    simp only [toConstraint, decide_eq_true_iff]
    refine ⟨fun hgoes => hgoes.1, fun hname => ?_⟩
    subst hname
    have hu := hrow rfl
    have hnot : toObjective earlier r.2 = false :=
      Bool.eq_false_iff.2 fun hgoes => hfirst ((h.toObjective_iff hx hu).1 hgoes)
    exact ⟨rfl, hnot, h.mem_constraintNames hx hu (List.mem_map_of_mem hr)⟩
  have hterms : gather (term? (toConstraint r.2)) fs = termsOn fs r.2 :=
    gather_term hs fun earlier _ _ _ hx => hgoes hx fun hrow => hrow
  have hsides : gather (side? (toConstraint r.2)) fs = sidesOf fs r.2 :=
    gather_side fun earlier _ _ hx => hgoes hx fun hrow => hrow
  rw [constraintOf, hterms, hsides, meantBy]

end Stated

open Stated

/-- Lines that are passed state something, and the next line is read in the section they leave. -/
theorem State.Passes.after {s s' : State} {ls : List Line} (hp : s.Passes ls s')
    {fs : List Statement} (h : s.After fs) :
    s'.After (fs ++ statementsFrom s.place ls) ∧ ∀ rest,
      statementsFrom s.place (ls ++ rest) =
        statementsFrom s.place ls ++ statementsFrom s'.place rest := by
  induction hp generalizing fs with
  | nil => exact ⟨by simpa [statementsFrom] using h, fun _ => rfl⟩
  | @cons s s₁ s' l ls hl _ ih =>
    have hmore : ¬ l.isEnd = true := by
      intro hend
      rw [readAs_of_isEnd hend] at hl
      cases hl
    obtain ⟨h₁, hplace⟩ := h.readAs hl
    obtain ⟨h', hrest⟩ := ih h₁
    simp only [List.cons_append, statementsFrom, if_neg hmore, ← hplace]
    refine ⟨by rwa [← List.append_assoc], fun rest => ?_⟩
    rw [hrest, List.append_assoc]

/-- A name is refused as that of a duplicate just where a second constraint has it. -/
theorem duplicate_of_read {text name : String} {k : Nat}
    (hr : read text = .error (k, .duplicateRow name)) :
    (constraintNames (statementsFrom .start ((said text).take k))).Duplicate name := by
  rw [read_eq] at hr
  obtain ⟨s, -, -, he⟩ | ⟨before, l, after, s, hs, hpass, he, hk⟩ :=
    State.passes_of_readAll_error hr
  · cases he
  have hk : k = before.length + 1 := by omega
  have htake : (said text).take k = before ++ [l] := by rw [hs, hk, take_length_succ]
  obtain ⟨hafter, hrest⟩ := hpass.after State.After.start
  obtain ⟨sense, hl, hi⟩ := Faults.readAs (P := fun e => ∀ name, e = .duplicateRow name →
      ∃ sense, l.statements s.place = [.row sense name] ∧ (s.rowIndex? name).isSome = true)
    (fun _ he name hname => absurd hname (he.2 name))
    (fun sense _ hl hi _ he => Fault.duplicateRow.inj he ▸ ⟨sense, hl, hi⟩) _ he name rfl
  obtain ⟨i, hi⟩ := Option.isSome_iff_exists.1 hi
  have hmore : ¬ l.isEnd = true := by
    intro hend
    rw [State.readAs_of_isEnd hend] at he
    cases he
  have hmem : name ∈ constraintNames (statementsFrom .start before) :=
    hafter.mem_constraintNames hi
  have hstated : statementsFrom .start ((said text).take k) =
      statementsFrom .start before ++ [.row sense name] := by
    rw [htake]
    refine (hrest [l]).trans ?_
    rw [statementsFrom, if_neg hmore, hl]
    rfl
  have hnames : constraintNames (statementsFrom .start before ++ [.row sense name]) =
      constraintNames (statementsFrom .start before) ++ [name] := by
    simp [constraintNames, rows, Statement.row?]
  rw [hstated, hnames, List.duplicate_iff_two_le_count, List.count_append,
    List.count_singleton_self]
  have hcount := List.count_pos_iff.2 hmem
  omega

/-- Two constraints of one name are refused, and nothing else is refused as a duplicate. In a
program that is read, a constraint that shares its name with the objective stays empty if the name
is used after it is declared, and all that is stated for the name goes to the objective. Whatever
stands before what, each coefficient and right-hand side is credited to the row that its name means
at the time. -/
theorem row_names_resolved (text : String) :
    (∀ k name, read text = .error (k, .duplicateRow name) →
      (constraintNames (statementsFrom .start ((said text).take k))).Duplicate name) ∧
    ∀ p, read text = .ok p →
      (constraintNames (statements text)).Nodup ∧
      p.objective.terms = objectiveTerms (statements text) ∧
      p.constraints = (rows (statements text)).map (constraintOf (statements text)) ∧
      ∀ c ∈ p.constraints, DeclaredFirst (statements text) c.name →
        if (freeRowNames (statements text)).head? = some c.name then
          c = { sense := c.sense, terms := [], bound := 0, name := c.name } ∧
            p.objective.terms = termsOn (statements text) c.name
        else c = meantBy (statements text) (c.sense, c.name) := by
  refine ⟨fun k name hr => duplicate_of_read hr, fun p hr => ?_⟩
  obtain ⟨s, hs, rfl⟩ := after_of_read hr
  refine ⟨hs.rows.distinct, hs.rows.objective, hs.rows.constraints, fun c hc hfirst => ?_⟩
  rw [hs.rows.constraints] at hc
  obtain ⟨r, hrow, rfl⟩ := List.mem_map.1 hc
  by_cases hhead : (freeRowNames (statements text)).head? =
      some (constraintOf (statements text) r).name
  · rw [if_pos hhead]
    refine ⟨constraintOf_of_first hfirst hhead r.1, ?_⟩
    exact hs.rows.objective.trans (objectiveTerms_of_first hs.sound hfirst hhead)
  · rw [if_neg hhead]
    exact constraintOf_of_not_first hs.sound hrow hfirst hhead

/-- The objective and a constraint of one name. -/
def shadowed : String :=
  "NAME m\nROWS\n N R1\n L R1\nCOLUMNS\n x R1 1\nRHS\n RHS R1 3\nENDATA\n"

def repeated : String := "ROWS\n L R1\n G R1\n"

theorem row_names_resolved_shadowed :
    (read repeated = .error (3, .duplicateRow "R1") ∧
      (constraintNames (statementsFrom .start ((said repeated).take 3))).Duplicate "R1") ∧
    ∃ p c, read shadowed = .ok p ∧ c ∈ p.constraints ∧ c.name = "R1" ∧
      DeclaredFirst (statements shadowed) "R1" ∧
      (freeRowNames (statements shadowed)).head? = some "R1" ∧ c.terms = [] ∧ c.bound = 0 ∧
      p.objective.terms = termsOn (statements shadowed) "R1" ∧
      (termsOn (statements shadowed) "R1").length = 1 ∧
      (sidesOf (statements shadowed) "R1").length = 1 := by
  have hrepeated : read repeated = .error (3, .duplicateRow "R1") := by cbv
  have hread : ∃ p ∈ (read shadowed).toOption, ∃ c ∈ p.constraints, c.name = "R1" := by
    decide +kernel
  have hsections : (∀ x ∈ (statements shadowed).take 4, ¬ Uses "R1" x) ∧
      "R1" ∉ rowNames ((statements shadowed).drop 4) ∧
      (freeRowNames (statements shadowed)).head? = some "R1" ∧
      (termsOn (statements shadowed) "R1").length = 1 ∧
      (sidesOf (statements shadowed) "R1").length = 1 := by decide +kernel
  obtain ⟨p, hp, c, hc, hname⟩ := hread
  obtain ⟨hd, hu, hfirst, hlengths⟩ := hsections
  have hdeclared : DeclaredFirst (statements shadowed) "R1" :=
    List.take_append_drop 4 (statements shadowed) ▸ declaredFirst_of_sections hd hu
  have hresolved := ((row_names_resolved shadowed).2 p (eq_ok_of_mem_toOption hp)).2.2.2 c hc
    (hname ▸ hdeclared)
  rw [hname, if_pos hfirst] at hresolved
  obtain ⟨hempty, hterms⟩ := hresolved
  exact ⟨⟨hrepeated, (row_names_resolved repeated).1 3 "R1" hrepeated⟩, p, c,
    eq_ok_of_mem_toOption hp, hc, hname, hdeclared, hfirst, by rw [hempty], by rw [hempty], hterms,
    hlengths⟩

end LinearProgram.Mps
