import LinearProgram.Proofs.Additions
import LinearProgram.Proofs.Plan

/-! Generated names. The counter of a registry never passes a free name, so which name is next
depends on the names taken alone, and a counter that starts over finds the same one. -/

namespace LinearProgram

variable {α γ δ ε : Type}

namespace Registry

variable {r r' : Registry α}

theorem lt_firstFree (r : Registry α) (fuel n : Nat) : n < r.firstFree fuel n := by
  induction fuel generalizing n with
  | zero => exact Nat.lt_succ_self n
  | succ fuel ih =>
    rw [firstFree]
    split
    · exact Nat.lt_trans (Nat.lt_succ_self n) (ih (n + 1))
    · exact Nat.lt_succ_self n

theorem isTaken_of_lt_firstFree {fuel n j : Nat} (hn : n < j) (hj : j < r.firstFree fuel n) :
    r.isTaken (generatedName j) = true := by
  induction fuel generalizing n with
  | zero =>
    rw [firstFree] at hj
    omega
  | succ fuel ih =>
    rw [firstFree] at hj
    by_cases ht : r.isTaken (generatedName (n + 1)) = true
    · rw [if_pos ht] at hj
      by_cases hne : j = n + 1
      · rw [hne, ht]
      · exact ih (by omega) hj
    · rw [if_neg ht] at hj
      omega

theorem isTaken_insert (r : Registry α) (info : VariableInfo α) (name : String) :
    (r.insert info).isTaken name = (r.isTaken name || info.name = name) := by
  simp [isTaken, insert]

/-- All names up to the counter are taken. -/
def Counted (r : Registry α) : Prop :=
  ∀ j, 0 < j → j ≤ r.anonymous → r.isTaken (generatedName j) = true

namespace Counted

theorem isTaken_of_lt (h : r.Counted) {j : Nat} (hpos : 0 < j) (hj : j < r.nextAnonymous) :
    r.isTaken (generatedName j) = true := by
  by_cases hle : j ≤ r.anonymous
  · exact h j hpos hle
  · exact isTaken_of_lt_firstFree (Nat.lt_of_not_le hle) hj

theorem nextAnonymous_le (h : r.Counted) (hn : ∀ name, r.isTaken name = r'.isTaken name) :
    r.nextAnonymous ≤ r'.nextAnonymous := by
  -- the name found by the other registry is free, so this one cannot have passed it
  by_contra hlt
  have hpos : 0 < r'.nextAnonymous := Nat.zero_lt_of_lt (r'.lt_firstFree _ _)
  have htaken := h.isTaken_of_lt hpos (Nat.lt_of_not_le hlt)
  rw [hn, r'.isTaken_nextAnonymous] at htaken
  cases htaken

/-- Registries with the same names generate the same name next, whatever they have counted. -/
theorem nextAnonymous_eq (h : r.Counted) (h' : r'.Counted)
    (hn : ∀ name, r.isTaken name = r'.isTaken name) : r.nextAnonymous = r'.nextAnonymous :=
  Nat.le_antisymm (h.nextAnonymous_le hn) (h'.nextAnonymous_le fun name => (hn name).symm)

end Counted

end Registry

/-- The counter stays, or it goes to the generated name that the draft bears. -/
def Draft.Counts (r : Registry α) (p : Draft α) : Prop :=
  p.anonymous = r.anonymous ∨
    p.anonymous = r.nextAnonymous ∧ p.info.name = Registry.generatedName r.nextAnonymous

def Draft.register (p : Draft α) (r : Registry α) : Registry α :=
  { r with anonymous := p.anonymous }.insert p.info

theorem Registry.Counted.register {r : Registry α} {p : Draft α} (h : r.Counted)
    (hp : p.Counts r) : (p.register r).Counted := by
  intro j hpos hj
  have hmono (ht : r.isTaken (generatedName j) = true) :
      (p.register r).isTaken (generatedName j) = true := by
    rw [Draft.register, isTaken_insert, Bool.or_eq_true]
    exact .inl ht
  rcases hp with hp | ⟨hp, hname⟩
  · exact hmono (h j hpos (hp ▸ hj))
  · by_cases hlt : j < r.nextAnonymous
    · exact hmono (h.isTaken_of_lt hpos hlt)
    · have hj : j ≤ r.nextAnonymous := hp ▸ hj
      obtain rfl : j = r.nextAnonymous := by omega
      rw [Draft.register, isTaken_insert, hname]
      simp

/-- Whatever the checks give has the property. -/
def Yields (P : γ → Prop) (x : Except ε γ) : Prop :=
  ∀ a, x = .ok a → P a

theorem Yields.bind {P : γ → Prop} {Q : δ → Prop} {x : Except ε γ} {f : γ → Except ε δ}
    (hx : Yields P x) (h : ∀ a, P a → Yields Q (f a)) : Yields Q (x >>= f) := by
  cases x with
  | ok a => exact h a (hx a rfl)
  | error e => exact fun _ => nofun

theorem Yields.after {Q : δ → Prop} {x : Except ε γ} {f : γ → Except ε δ}
    (h : ∀ a, Yields Q (f a)) : Yields Q (x >>= f) :=
  bind (fun _ _ => trivial) fun a (_ : True) => h a

theorem yields_of_ok {P : γ → Prop} {a : γ} (h : P a) : Yields P (.ok a : Except ε γ) := by
  rintro _ ⟨⟩
  exact h

theorem yields_of_error {P : γ → Prop} {e : ε} : Yields P (.error e : Except ε γ) :=
  fun _ => nofun

/-- The name that the caller gives to the variable. -/
def Origin.name? : Origin α → Option String
  | create name | namedConstant name _ => some name
  | _ => none

section Drafts

theorem Registry.yields_checkFree (r : Registry α) (name : String) :
    Yields (fun _ => r.isTaken name = false) (r.checkFree name : Except (ModelError α) Unit) := by
  intro u h
  by_cases hf : r.isTaken name = true
  · rw [checkFree, if_pos hf] at h
    cases h
  · exact Bool.eq_false_of_not_eq_true hf

variable [Scalar α] {r : Registry α} {P : Draft α → Prop} {d : Domain}

namespace Registry

variable (h : ∀ constant expression row, P (r.draftGenerated d constant expression (some row)))
include h

theorem yields_draftDefined (constant : Option α) (label : String) (operands : LinearRow α) :
    Yields P (r.draftDefined d constant label operands) :=
  .after fun _ => yields_of_ok (h _ _ _)

theorem yields_draftScaled (a : Variable) (k : α) : Yields P (r.draftScaled d a k) :=
  .after fun _ => .after fun _ => .after fun _ => yields_draftDefined h _ _ _

theorem yields_draftDivided (a : Variable) (k : α) : Yields P (r.draftDivided d a k) :=
  .after fun _ => .after fun _ => .after fun _ => .after fun _ => yields_draftDefined h _ _ _

end Registry

/-- A variable bears the name that the caller gives, which is free, or else a generated one. A row
ties it unless its value is for the caller to choose. -/
theorem Origin.yields_of_forms {o : Origin α}
    (named : ∀ name constant expression row, o.name? = some name → r.isTaken name = false →
      row.isSome = !o.isFree → P ⟨⟨name, d, constant, expression⟩, r.anonymous, row⟩)
    (generated : ∀ constant expression row, o.name? = none → row.isSome = !o.isFree →
      P (r.draftGenerated d constant expression row)) : Yields P (o.draft r d) := by
  cases o with
  | create name =>
    exact .after fun _ => (r.yields_checkFree name).bind fun _ hf =>
      yields_of_ok (named _ _ _ _ rfl hf rfl)
  | createAnonymous => exact .after fun _ => yields_of_ok (generated _ _ _ rfl rfl)
  | fromConstant value => exact .after fun _ => yields_of_ok (generated _ _ _ rfl rfl)
  | namedConstant name value =>
    exact .after fun _ => (r.yields_checkFree name).bind fun _ hf =>
      yields_of_ok (named _ _ _ _ rfl hf rfl)
  | sum a b =>
    exact .after fun _ => .after fun _ => .after fun _ => .after fun _ =>
      Registry.yields_draftDefined (fun _ _ _ => generated _ _ _ rfl rfl) _ _ _
  | negate a =>
    exact .after fun _ => .after fun _ =>
      Registry.yields_draftDefined (fun _ _ _ => generated _ _ _ rfl rfl) _ _ _
  | scale a k => exact Registry.yields_draftScaled (fun _ _ _ => generated _ _ _ rfl rfl) a k
  | divide a k => exact Registry.yields_draftDivided (fun _ _ _ => generated _ _ _ rfl rfl) a k
  | multiply a b =>
    refine .after fun x => .after fun y => ?_
    cases x.constant <;> cases y.constant
    · exact yields_of_error
    all_goals exact Registry.yields_draftScaled (fun _ _ _ => generated _ _ _ rfl rfl) _ _
  | divideBy a b =>
    refine .after fun _ => .after fun y => ?_
    cases y.constant with
    | some k => exact Registry.yields_draftDivided (fun _ _ _ => generated _ _ _ rfl rfl) a k
    | none => exact yields_of_error

theorem Origin.yields_draft (r : Registry α) (d : Domain) (o : Origin α) :
    Yields (Draft.Counts r) (o.draft r d) :=
  yields_of_forms (fun _ _ _ _ _ _ _ => .inl rfl) fun _ _ _ _ _ => .inr ⟨rfl, rfl⟩

/-- A draft never bears a name that is taken. -/
theorem Origin.yields_free (r : Registry α) (d : Domain) (o : Origin α) :
    Yields (fun p => r.isTaken p.info.name = false) (o.draft r d) :=
  yields_of_forms (fun _ _ _ _ _ hf _ => hf) fun _ _ _ _ _ => r.isTaken_nextAnonymous

end Drafts

end LinearProgram
