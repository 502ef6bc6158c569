import LinearProgram.Proofs.MpsComments

/-! What lines of bounds say of a column. On each side the last bound that is stated counts, and
what makes the column binary or integer counts wherever it stands. A line that is read does to its
column what it says. -/

namespace LinearProgram.Mps

section BoundsOf

variable {P : Float → Prop}

def BoundsOf (P : Float → Prop) (c : Column Float) : Prop :=
  (∀ l ∈ c.lower, P l) ∧ ∀ u ∈ c.upper, P u

instance [DecidablePred P] (c : Column Float) : Decidable (BoundsOf P c) :=
  inferInstanceAs (Decidable (_ ∧ _))

end BoundsOf

/-- Numbers of this size stand for infinity. -/
def statedNumber? (word : String) : Option Float :=
  (Decimal.readFloat? word).map fun x =>
    if 1e30 ≤ x then Binary64.infinity
    else if x ≤ -1e30 then -Binary64.infinity
    else x

/-- What a line can say of its column. -/
inductive StatedBound where
  | upper (x : Float)
  | lower (x : Float)
  | fixed (x : Float)
  | free
  | unlimitedBelow
  | unlimitedAbove
  | binary
  | integerLower (x : Float)
  | integerUpper (x : Float)

namespace StatedBound

/-- The kinds that stand without a number. -/
def ofKind? (kind : String) : Option StatedBound :=
  match capital kind with
  | "FR" => some free
  | "MI" => some unlimitedBelow
  | "PL" => some unlimitedAbove
  | "BV" => some binary
  | _ => none

def ofNumber? (kind word : String) : Option StatedBound :=
  (statedNumber? word).bind fun x =>
    match capital kind with
    | "UP" => some (upper x)
    | "LO" => some (lower x)
    | "FX" => some (fixed x)
    | "LI" => some (integerLower x)
    | "UI" => some (integerUpper x)
    | _ => none

/-- A kind with a number binds one column, and a kind without one another. -/
def ofEither? (kind bare column word : String) : Option (String × StatedBound) :=
  match ofKind? kind with
  | some b => some (bare, b)
  | none => (ofNumber? kind word).map (column, ·)

/-- The column that is bound, and how. The name of the set comes second if it is not left out. -/
def ofWords? : List String → Option (String × StatedBound)
  | [kind, column] => (ofKind? kind).map (column, ·)
  | [kind, second, third] => ofEither? kind third second third
  | [kind, _, column, word] => ofEither? kind column column word
  | _ => none

/-- The lower bound, if the line states one or states that there is none. An infinite one is none,
unless it fixes the column. -/
def lower? : StatedBound → Option (Option Float)
  | lower x | integerLower x => some (Option.guard Binary64.isFinite x)
  | fixed x => some (some x)
  | free | unlimitedBelow => some none
  | binary => some (some 0)
  | upper _ | unlimitedAbove | integerUpper _ => none

def upper? : StatedBound → Option (Option Float)
  | upper x | integerUpper x => some (Option.guard Binary64.isFinite x)
  | fixed x => some (some x)
  | free | unlimitedAbove => some none
  | binary => some (some 1)
  | lower _ | unlimitedBelow | integerLower _ => none

def isBinary : StatedBound → Bool
  | binary => true
  | _ => false

def isInteger : StatedBound → Bool
  | integerLower _ | integerUpper _ => true
  | _ => false

/-- The number that the line gives. -/
def value? : StatedBound → Option Float
  | upper x | lower x | fixed x | integerLower x | integerUpper x => some x
  | free | unlimitedBelow | unlimitedAbove | binary => none

/-- The type of a column with these bounds that is declared inside a block of integers or not. A
binary column stays binary. -/
def typeOf (declaredInteger : Bool) (bs : List StatedBound) : VariableType :=
  if bs.any isBinary then .binary
  else if declaredInteger || bs.any isInteger then .integer
  else .continuous

/-- A column with these bounds. -/
def column (declaredInteger : Bool) (bs : List StatedBound) (name : String) : Column Float where
  type := typeOf declaredInteger bs
  lower := (bs.filterMap lower?).getLast?.getD (some 0)
  upper := (bs.filterMap upper?).getLast?.getD none
  name := name

/-- One more bound on a column. -/
def impose (b : StatedBound) (c : Column Float) : Column Float where
  type :=
    if b.isBinary then .binary
    else if b.isInteger && c.type == .continuous then .integer
    else c.type
  lower := b.lower?.getD c.lower
  upper := b.upper?.getD c.upper
  name := c.name

variable {b : StatedBound} {bs : List StatedBound} {c : Column Float}

theorem typeOf_concat (declaredInteger : Bool) (bs : List StatedBound) (b : StatedBound) :
    typeOf declaredInteger (bs ++ [b]) =
      if b.isBinary then .binary
      else if b.isInteger && typeOf declaredInteger bs == .continuous then .integer
      else typeOf declaredInteger bs := by
  have hany (f : StatedBound → Bool) : (bs ++ [b]).any f = (bs.any f || f b) := by simp
  unfold typeOf
  rw [hany, hany]
  generalize bs.any isBinary = x, bs.any isInteger = y, b.isBinary = z, b.isInteger = w
  cases x <;> cases y <;> cases z <;> cases w <;> cases declaredInteger <;> rfl

theorem getLast?_filterMap_concat {γ : Type} (f : StatedBound → Option γ) (bs : List StatedBound)
    (b : StatedBound) (a : γ) :
    ((bs ++ [b]).filterMap f).getLast?.getD a =
      (f b).getD ((bs.filterMap f).getLast?.getD a) := by
  rw [List.filterMap_append]
  cases hb : f b <;> simp [hb]

/-- The last bound is imposed on what the others make of the column. -/
theorem column_concat (declaredInteger : Bool) (bs : List StatedBound) (b : StatedBound)
    (name : String) :
    column declaredInteger (bs ++ [b]) name = b.impose (column declaredInteger bs name) := by
  unfold column impose
  rw [typeOf_concat, getLast?_filterMap_concat, getLast?_filterMap_concat]

theorem column_nil (declaredInteger : Bool) (name : String) :
    column declaredInteger [] name =
      if declaredInteger then .integer name else .continuous name := by
  cases declaredInteger <;> rfl

theorem impose_binary (hb : b.isBinary = true) (c : Column Float) :
    b.impose c = .binary c.name := by
  cases b with
  | binary => rfl
  | _ => cases hb

/-- A binary column has a last line that makes it so, and the bounds after it are imposed on a
binary column as it is made. -/
theorem exists_last_binary {declaredInteger : Bool} {name : String}
    (h : (column declaredInteger bs name).type = .binary) :
    ∃ earlier later, bs = earlier ++ binary :: later ∧ (∀ b ∈ later, b.isBinary = false) ∧
      later.foldl (fun c b => b.impose c) (.binary name) = column declaredInteger bs name := by
  induction bs using List.reverseRecOn with
  | nil =>
    rw [column_nil] at h
    cases declaredInteger <;> cases h
  | append_singleton bs b ih =>
    rw [column_concat] at h ⊢
    cases hb : b.isBinary with
    | true =>
      have hlast : b = binary := by cases b <;> first | rfl | cases hb
      have hmade := impose_binary hb (column declaredInteger bs name)
      exact ⟨bs, [], by rw [hlast], List.forall_mem_nil _, hmade.symm⟩
    | false =>
      have htype : (column declaredInteger bs name).type = .binary := by
        rw [impose, hb, if_neg Bool.false_ne_true] at h
        dsimp only at h
        split at h
        · cases h
        · exact h
      obtain ⟨earlier, later, rfl, hlater, hfold⟩ := ih htype
      refine ⟨earlier, later ++ [b], by simp, ?_, by rw [List.foldl_concat, hfold]⟩
      exact List.forall_mem_append.2 ⟨hlater, List.forall_mem_singleton.2 hb⟩

theorem guard_mem {P : Float → Prop} {x : Float} (hx : P x) :
    ∀ y ∈ Option.guard Binary64.isFinite x, P y := by
  rintro y hy
  obtain ⟨rfl, -⟩ := Option.guard_eq_some_iff.1 hy
  exact hx

/-- The bounds that come of it are those that there were, numbers that are stated, or those of a
binary column. -/
theorem boundsOf_impose {P : Float → Prop} (h0 : P 0) (h1 : P 1) (hc : BoundsOf P c)
    (hb : ∀ x ∈ b.value?, P x) : BoundsOf P (b.impose c) := by
  have hsome {x : Float} (hx : P x) : ∀ y ∈ some x, P y := fun _ hy => Option.some.inj hy ▸ hx
  cases b with
  | upper x | integerUpper x => exact ⟨hc.1, guard_mem (hb x rfl)⟩
  | lower x | integerLower x => exact ⟨guard_mem (hb x rfl), hc.2⟩
  | fixed x => exact ⟨hsome (hb x rfl), hsome (hb x rfl)⟩
  | free => exact ⟨nofun, nofun⟩
  | unlimitedBelow => exact ⟨nofun, hc.2⟩
  | unlimitedAbove => exact ⟨hc.1, nofun⟩
  | binary => exact ⟨hsome h0, hsome h1⟩

theorem boundsOf_foldl {P : Float → Prop} (h0 : P 0) (h1 : P 1) (hc : BoundsOf P c)
    (hbs : ∀ b ∈ bs, ∀ x ∈ b.value?, P x) :
    BoundsOf P (bs.foldl (fun c b => b.impose c) c) := by
  induction bs generalizing c with
  | nil => exact hc
  | cons b bs ih =>
    obtain ⟨hb, hbs⟩ := List.forall_mem_cons.1 hbs
    exact ih (boundsOf_impose h0 h1 hc hb) hbs

end StatedBound

theorem infinityThreshold_eq : infinityThreshold = 1e30 := by
  decide +kernel

theorem statedNumber?_of_number {word : String} {x : Float} (h : number word = .ok x) :
    statedNumber? word = some x := by
  unfold number at h
  unfold statedNumber?
  cases hy : Decimal.readFloat? word with
  | none =>
    rw [hy] at h
    cases h
  | some y =>
    rw [hy] at h
    dsimp only at h
    rw [infinityThreshold_eq] at h
    rw [Option.map_some]
    by_cases hlarge : 1e30 ≤ y
    · rw [if_pos hlarge] at h ⊢
      rw [Except.ok.inj h]
    · rw [if_neg hlarge] at h ⊢
      by_cases hsmall : y ≤ -1e30
      · rw [if_pos hsmall] at h ⊢
        rw [Except.ok.inj h]
      · rw [if_neg hsmall] at h ⊢
        rw [Except.ok.inj h]

namespace StatedBound

variable {kind word : String} {words : List String} {name : String} {value : Float}
  {c d : Column Float}

theorem type_integral (c : Column Float) :
    integral c = { c with type := if c.type == .continuous then .integer else c.type } := by
  unfold integral
  by_cases hc : c.type = .continuous
  · simp [hc]
  · simp [hc]

theorem ofKind?_eq_none (hv : ¬ valueless (capital kind) = true) : ofKind? kind = none := by
  unfold ofKind?
  generalize capital kind = k at hv ⊢
  split <;> first | rfl | exact absurd rfl hv

theorem exists_ofKind? (hv : valueless (capital kind) = true)
    (hd : applyBound (capital kind) value c = .ok d) :
    ∃ b, ofKind? kind = some b ∧ (∀ x ∈ b.value?, x = value) ∧ b.impose c = d := by
  unfold ofKind?
  generalize capital kind = k at hv hd ⊢
  unfold applyBound at hd
  split at hd <;> cases hd
  case h_4 => exact ⟨free, rfl, nofun, rfl⟩
  case h_5 => exact ⟨unlimitedBelow, rfl, nofun, rfl⟩
  case h_6 => exact ⟨unlimitedAbove, rfl, nofun, rfl⟩
  case h_7 => exact ⟨binary, rfl, nofun, rfl⟩
  all_goals exact absurd hv (by decide)

theorem exists_ofNumber? (hv : ¬ valueless (capital kind) = true) (hn : number word = .ok value)
    (hd : applyBound (capital kind) value c = .ok d) :
    ∃ b, ofNumber? kind word = some b ∧ (∀ x ∈ b.value?, x = value) ∧ b.impose c = d := by
  have hsame : ∀ x ∈ some value, x = value := fun _ hx => (Option.some.inj hx).symm
  rw [ofNumber?, statedNumber?_of_number hn, Option.bind_some]
  generalize capital kind = k at hv hd ⊢
  unfold applyBound at hd
  split at hd <;> cases hd
  case h_1 => exact ⟨upper value, rfl, hsame, rfl⟩
  case h_2 => exact ⟨lower value, rfl, hsame, rfl⟩
  case h_3 => exact ⟨fixed value, rfl, hsame, rfl⟩
  case h_8 => exact ⟨integerLower value, rfl, hsame, by rw [type_integral]; rfl⟩
  case h_9 => exact ⟨integerUpper value, rfl, hsame, by rw [type_integral]; rfl⟩
  all_goals exact absurd rfl hv

theorem exists_ofEither? {bare column : String}
    (ho : (if valueless (capital kind) then .ok (bare, 0)
      else (number word).map fun x => (column, x)) = .ok (name, value))
    (hd : applyBound (capital kind) value c = .ok d) :
    ∃ b, ofEither? kind bare column word = some (name, b) ∧ (∀ x ∈ b.value?, x = value) ∧
      b.impose c = d := by
  by_cases hv : valueless (capital kind) = true
  · rw [if_pos hv] at ho
    cases ho
    obtain ⟨b, hb, hc⟩ := exists_ofKind? hv hd
    exact ⟨b, by rw [ofEither?, hb], hc⟩
  · rw [if_neg hv] at ho
    obtain ⟨x, hx, he⟩ := exists_of_map_eq_ok ho
    cases he
    obtain ⟨b, hb, hc⟩ := exists_ofNumber? hv hx hd
    exact ⟨b, by rw [ofEither?, ofKind?_eq_none hv, hb]; rfl, hc⟩

/-- The reader finds in the words of a line what they say, and does it to the column. -/
theorem exists_of_applyBound
    (ho : boundOperands (capital (words.headD "")) words = .ok (name, value))
    (hd : applyBound (capital (words.headD "")) value c = .ok d) :
    ∃ b, ofWords? words = some (name, b) ∧ (∀ x ∈ b.value?, x = value) ∧ b.impose c = d := by
  unfold boundOperands at ho
  split at ho
  · rename_i kind column
    rw [List.headD_cons] at ho hd
    split at ho <;> cases ho
    obtain ⟨b, hb, hc⟩ := exists_ofKind? ‹_› hd
    exact ⟨b, by rw [ofWords?, hb]; rfl, hc⟩
  · rw [List.headD_cons] at ho hd
    exact exists_ofEither? ho hd
  · rw [List.headD_cons] at ho hd
    exact exists_ofEither? ho hd
  · cases ho

end StatedBound

/-- What is read of a line of bounds is what it says, done to the column that it names. -/
theorem State.exists_impose_of_readBound {s s' : State} {words : List String}
    (h : s.readBound words = .ok s') :
    ∃ name b i, StatedBound.ofWords? words = some (name, b) ∧ s.columnIndex? name = some i ∧
      s.modifyColumn i b.impose = s' := by
  obtain ⟨name, value, i, c, d, ho, hi, hc, hd, rfl⟩ := exists_applyBound_of_readBound h
  obtain ⟨b, hb, -, rfl⟩ := StatedBound.exists_of_applyBound ho hd
  refine ⟨name, b, i, hb, hi, ?_⟩
  have hmodify : s.problem.columns.modify i b.impose =
      s.problem.columns.modify i fun _ => b.impose c := by
    refine List.ext_getElem? fun j => ?_
    rw [List.getElem?_modify, List.getElem?_modify]
    by_cases hij : i = j
    · rw [← hij, hc]
      rfl
    · simp [hij]
  rw [modifyColumn, modifyColumn, setProblem, hmodify, setProblem]

end LinearProgram.Mps
