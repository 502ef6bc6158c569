import LinearProgram.Json.Native
import LinearProgram.Problem.Numbers
import LinearProgram.Proofs.JsonText
import LinearProgram.Proofs.RereadNumbers

/-! Which programs come back from the native form, and as what. An infinite bound of a column is
written as an absent one; an infinite coefficient has no form that is read as a number. Every other
number comes back as what its text is read as. -/

namespace LinearProgram

open Binary64 Json

namespace Json

theorem Sound.record {members : List (String × Json)} (h : members.Forall fun m => Sound m.2) :
    Sound (record members) := by
  rw [List.forall_iff_forall_mem] at h
  refine .object (fun m hm => ?_) fun m hm => ?_
  · obtain ⟨_, _, rfl⟩ := List.mem_map.1 hm
    rfl
  · obtain ⟨n, hn, rfl⟩ := List.mem_map.1 hm
    exact h n hn

theorem sound_float (x : Float) : Sound (float x) := by
  unfold float
  split
  · rename_i hx
    exact .number (isNumeral_chars hx)
  · exact .null

theorem sound_option (x : Option Float) : Sound (option float x) := by
  cases x with
  | none => exact .null
  | some x => exact sound_float x

theorem sound_terms (ts : Terms Float) : Sound (termsToJson ts) := by
  refine .array fun j hj => ?_
  obtain ⟨t, _, rfl⟩ := List.mem_map.1 hj
  refine .array fun j hj => ?_
  rcases List.mem_pair.1 hj with rfl | rfl
  · exact .number (isNumeral_digitChars _)
  · exact sound_float _

theorem toNat?_nat (n : Nat) : (nat n).toNat? = if n < UInt64.size then some n else none := by
  have hd : (Decimal.digitChars n).all Char.isDigit = true :=
    List.all_eq_true.2 (Decimal.isDigits_digitChars n).2
  simp [nat, toNat?, hd, Decimal.digitsValue_digitChars]

/-- An infinity or a NaN is written as a null, so it is taken for an absent number. -/
theorem optional?_float [NumberReader] {f : Float → Float} {x : Option Float}
    (h : ∀ y ∈ x, ReadsAs f y) :
    optional? toFloat? (some (option float x)) = some ((x.filter isFinite).map f) := by
  cases x with
  | none => rfl
  | some x =>
    have hread := toFloat?_float (h x rfl)
    unfold option
    cases hx : isFinite x with
    | false => simp [float, hx, optional?, Option.filter]
    | true =>
      have hne : float x ≠ .null := by simp [float, hx]
      rw [optional?, hread]
      · simp [hx, Option.filter]
      exact hne

/-- Items that are read one by one are read together, or not at all. -/
theorem mapM_map {α β γ : Type} {f : β → Option γ} {g : α → β} {r : α → γ} {P : α → Bool}
    {l : List α} (h : ∀ a ∈ l, f (g a) = if P a then some (r a) else none) :
    (l.map g).mapM f = if l.all P then some (l.map r) else none := by
  induction l with
  | nil => rfl
  | cons a l ih =>
    rw [List.map_cons, List.mapM_cons, h a List.mem_cons_self,
      ih fun b hb => h b (List.mem_cons_of_mem a hb), List.all_cons]
    cases P a <;> cases l.all P <;> rfl

end Json

theorem Column.sound_toJson (c : Column Float) : Sound c.toJson :=
  .record ⟨.string _, sound_option _, sound_option _, .string _⟩

theorem Constraint.sound_toJson (c : Constraint Float) : Sound c.toJson :=
  .record ⟨.string _, sound_terms _, sound_float _, .string _⟩

theorem Objective.sound_toJson (o : Objective Float) : Sound o.toJson :=
  .record ⟨.string _, sound_terms _⟩

theorem Config.sound_toJson (c : Config Float) : Sound c.toJson :=
  .record ⟨.string _, sound_option _, sound_option _, .bool _⟩

theorem Problem.sound_toJson (p : Problem Float) : Sound p.toJson := by
  refine .record ⟨.string _, p.objective.sound_toJson, .array fun j hj => ?_,
    .array fun j hj => ?_, p.config.sound_toJson⟩
  · obtain ⟨c, _, rfl⟩ := List.mem_map.1 hj
    exact c.sound_toJson
  · obtain ⟨c, _, rfl⟩ := List.mem_map.1 hj
    exact c.sound_toJson

/-- Every coefficient is finite, and every offset fits in 64 bits. -/
def Terms.storable (ts : Terms Float) : Bool :=
  ts.all fun t => t.1 < UInt64.size && isFinite t.2

section Reading

variable [NumberReader] {f : Float → Float}

theorem terms?_termsToJson {ts : Terms Float} (h : ∀ t ∈ ts, ReadsAs f t.2) :
    terms? (termsToJson ts) =
      if ts.storable then some (ts.map fun t => (t.1, f t.2)) else none := by
  have hpair (t) (ht : t ∈ ts) : toPair? toNat? toFloat? (pairToJson t) =
      if t.1 < UInt64.size && isFinite t.2 then some (t.1, f t.2) else none := by
    rw [pairToJson, toPair?, toNat?_nat, toFloat?_float (h t ht)]
    grind
  rw [termsToJson, terms?, toList?, mapM_map hpair]
  rfl

namespace Column

def restored (c : Column Float) : Column Float :=
  { c with lower := c.lower.filter isFinite, upper := c.upper.filter isFinite }

theorem ofJson?_toJson {c : Column Float} (h : ∀ x ∈ c.numbers, ReadsAs f x) :
    ofJson? c.toJson = some (c.restored.mapNumbers f) := by
  have hf : c.toJson.fields? ["variable_type", "lower_bound", "upper_bound", "name"] =
    some [some c.type.toJson, some (option float c.lower), some (option float c.upper),
      some (text c.name)] := rfl
  have ht : VariableType.ofJson? c.type.toJson = some c.type := by cases c.type <;> rfl
  have hl := optional?_float fun y hy => h y (mem_numbers_of_lower hy)
  have hu := optional?_float fun y hy => h y (mem_numbers_of_upper hy)
  simp [ofJson?, hf, required?, hl, hu, ht, text, toText?, restored, mapNumbers]

end Column

namespace Constraint

def storable (c : Constraint Float) : Bool :=
  c.terms.storable && isFinite c.bound

theorem ofJson?_toJson {c : Constraint Float} (h : ∀ x ∈ c.numbers, ReadsAs f x) :
    ofJson? c.toJson = if c.storable then some (c.mapNumbers f) else none := by
  have hf : c.toJson.fields? ["constraint_type", "terms", "bound", "name"] =
    some [some c.sense.toJson, some (termsToJson c.terms), some (float c.bound),
      some (text c.name)] := rfl
  have hs : Sense.ofJson? c.sense.toJson = some c.sense := by cases c.sense <;> rfl
  have hb := toFloat?_float (h c.bound List.mem_cons_self)
  have hread : ∀ t ∈ c.terms, ReadsAs f t.2 := fun t ht =>
    h t.2 (List.mem_cons_of_mem c.bound (List.mem_map_of_mem ht))
  have ht := terms?_termsToJson hread
  simp [ofJson?, hf, required?, hs, ht, hb, text, toText?, storable]
  cases c.terms.storable <;> cases isFinite c.bound <;> rfl

end Constraint

namespace Objective

theorem ofJson?_toJson {o : Objective Float} (h : ∀ t ∈ o.terms, ReadsAs f t.2) :
    ofJson? o.toJson = if o.terms.storable
      then some ⟨o.direction, o.terms.map fun t => (t.1, f t.2)⟩ else none := by
  have hf : o.toJson.fields? ["optimization_type", "terms"] =
    some [some o.direction.toJson, some (termsToJson o.terms)] := rfl
  have hd : Direction.ofJson? o.direction.toJson = some o.direction := by
    cases o.direction <;> rfl
  simp [ofJson?, hf, required?, hd, terms?_termsToJson h]
  cases o.terms.storable <;> rfl

end Objective

namespace Config

def restored (c : Config Float) : Config Float :=
  { c with timeLimit := c.timeLimit.filter isFinite, gapTolerance := c.gapTolerance.filter isFinite }

theorem ofJson?_toJson {c : Config Float} (h : ∀ x ∈ c.numbers, ReadsAs f x) :
    ofJson? c.toJson = some (c.restored.mapNumbers f) := by
  have hf : c.toJson.fields? ["backend", "time_limit", "gap_tolerance", "verbose"] =
    some [some c.solver.toJson, some (option float c.timeLimit), some (option float c.gapTolerance),
      some (.bool c.verbose)] := rfl
  have hs : SolverChoice.ofJson? c.solver.toJson = some c.solver := by cases c.solver <;> rfl
  have ht := optional?_float fun y hy => h y (mem_numbers_of_timeLimit hy)
  have hg := optional?_float fun y hy => h y (mem_numbers_of_gapTolerance hy)
  simp [ofJson?, hf, required?, ht, hg, hs, toBool?, restored, mapNumbers]

end Config

namespace Problem

def storable (p : Problem Float) : Bool :=
  p.objective.terms.storable && p.constraints.all Constraint.storable

def restored (p : Problem Float) : Problem Float :=
  { p with columns := p.columns.map Column.restored, config := p.config.restored }

theorem ofJson?_toJson {p : Problem Float} (h : ∀ x ∈ p.numbers, ReadsAs f x) :
    ofJson? p.toJson = if p.storable then some (p.restored.mapNumbers f) else none := by
  have hf : p.toJson.fields? ["name", "objective", "constraints", "variables", "solver_config"] =
    some [some (text p.name), some p.objective.toJson,
      some (.array (p.constraints.map Constraint.toJson)),
      some (.array (p.columns.map Column.toJson)), some p.config.toJson] := rfl
  have hobjective := Objective.ofJson?_toJson (o := p.objective) fun t ht =>
    h t.2 (mem_numbers_of_objective ht)
  have hcols : (p.columns.map Column.toJson).mapM Column.ofJson? =
      some (p.columns.map fun c => c.restored.mapNumbers f) := by
    rw [mapM_map (P := fun _ => true) (r := fun c => c.restored.mapNumbers f) fun c hc =>
      Column.ofJson?_toJson fun x hx => h x (mem_numbers_of_column hc hx)]
    simp
  have hrows : (p.constraints.map Constraint.toJson).mapM Constraint.ofJson? =
      if p.constraints.all Constraint.storable
      then some (p.constraints.map (Constraint.mapNumbers f)) else none :=
    mapM_map fun c hc => Constraint.ofJson?_toJson fun x hx => h x (mem_numbers_of_constraint hc hx)
  have hconfig := Config.ofJson?_toJson (c := p.config) fun x hx => h x (mem_numbers_of_config hx)
  simp [-List.all_eq_true, ofJson?, hf, required?, text, toText?, toList?, hcols, hrows,
    hobjective, hconfig, storable]
  cases p.objective.terms.storable <;> cases p.constraints.all Constraint.storable <;>
    simp [mapNumbers, restored]

/-- A program is written in the native form whatever it holds, and read back just when its rows
hold finite numbers only. -/
theorem ofJson?_read?_pretty {p : Problem Float} (h : ∀ x ∈ p.numbers, ReadsAs f x) :
    (read? p.toJson.pretty).bind ofJson? =
      if p.storable then some (p.restored.mapNumbers f) else none := by
  rw [read?_pretty p.sound_toJson, Option.bind_some, ofJson?_toJson h]

end Problem

end Reading

end LinearProgram
