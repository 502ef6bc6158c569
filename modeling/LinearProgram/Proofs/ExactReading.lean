import LinearProgram.Problem.Numbers
import LinearProgram.Proofs.ExtendedNumbers
import LinearProgram.Proofs.NumberOrder
import LinearProgram.Proofs.ValidPrograms

/-! Programs over floating point as programs over the numbers that these stand for, with nothing
rounded. What passes the check for defects still passes it. -/

namespace LinearProgram

open Binary64

namespace Extended

def ofFloat (x : Float) : Extended :=
  if isFinite x then finite (toRat x)
  else if isNaN x then undefined
  else infinite (isNegative x)

theorem ofFloat_cases (x : Float) :
    isFinite x = true ∧ ofFloat x = finite (toRat x) ∨
      isNaN x = true ∧ isFinite x = false ∧ ofFloat x = undefined ∨
        isFinite x = false ∧ isNaN x = false ∧ ofFloat x = infinite (isNegative x) := by
  unfold ofFloat
  cases hf : isFinite x
  · cases hn : isNaN x
    · exact .inr (.inr ⟨rfl, rfl, rfl⟩)
    · exact .inr (.inl ⟨rfl, rfl, rfl⟩)
  · exact .inl ⟨rfl, rfl⟩

theorem isFinite_ofFloat (x : Float) : Scalar.isFinite (ofFloat x) = Scalar.isFinite x := by
  change _ = isFinite x
  rcases ofFloat_cases x with ⟨hf, he⟩ | ⟨-, hf, he⟩ | ⟨hf, -, he⟩ <;> rw [he, hf] <;> rfl

theorem isNaN_ofFloat (x : Float) : Scalar.isNaN (ofFloat x) = Scalar.isNaN x := by
  change _ = isNaN x
  rcases ofFloat_cases x with ⟨hf, he⟩ | ⟨hn, -, he⟩ | ⟨-, hn, he⟩
  · rw [he, isNaN_of_isFinite hf]
    rfl
  · rw [he, hn]
    rfl
  · rw [he, hn]
    rfl

/-- No two numbers come in an order that they did not have. -/
theorem lt_of_ofFloat {x y : Float} (h : Scalar.lt (ofFloat x) (ofFloat y) = true) :
    Scalar.lt x y = true := by
  apply decide_eq_true
  rcases ofFloat_cases x with ⟨hx, ex⟩ | ⟨-, -, ex⟩ | ⟨hx, hxn, ex⟩
  · rcases ofFloat_cases y with ⟨hy, ey⟩ | ⟨-, -, ey⟩ | ⟨hy, hyn, ey⟩ <;> rw [ex, ey] at h
    · exact lt_of_toRat_lt hx hy (of_decide_eq_true h)
    · cases h
    · exact finite_lt_infinite hx hy hyn (Bool.eq_false_of_not_eq_true' h)
  · rw [ex] at h
    cases h
  · rcases ofFloat_cases y with ⟨hy, ey⟩ | ⟨-, -, ey⟩ | ⟨hy, hyn, ey⟩ <;> rw [ex, ey] at h
    · exact infinite_lt_finite hx hxn h hy
    · cases h
    · obtain ⟨hxs, hys⟩ := (Bool.and_eq_true _ _).mp h
      exact infinite_lt_infinite hx hxn hxs hy hyn (Bool.eq_false_of_not_eq_true' hys)

end Extended

/-- The program that the binary digits state. -/
def Problem.exact (p : Problem Float) : Problem Extended :=
  p.mapNumbers Extended.ofFloat

theorem Terms.Proper.exact {n : Nat} {ts : Terms Float} (h : Terms.Proper n ts) :
    Terms.Proper n (ts.map fun t => (t.1, Extended.ofFloat t.2)) := by
  intro t ht
  obtain ⟨u, hu, rfl⟩ := List.mem_map.1 ht
  exact ⟨(h u hu).1, (Extended.isFinite_ofFloat u.2).trans (h u hu).2⟩

theorem boundsConsistent_exact {lower upper : Option Float}
    (h : boundsConsistent lower upper = true) :
    boundsConsistent (lower.map Extended.ofFloat) (upper.map Extended.ofFloat) = true := by
  have hlt {x y : Float} (hxy : Scalar.lt x y = false) :
      Scalar.lt (Extended.ofFloat x) (Extended.ofFloat y) = false := by
    by_contra hne
    rw [Extended.lt_of_ofFloat (Bool.eq_true_of_not_eq_false hne)] at hxy
    cases hxy
  cases lower with
  | none =>
    cases upper with
    | none => rfl
    | some u =>
      simp only [boundsConsistent, Option.map_none, Option.map_some, Extended.isNaN_ofFloat] at h ⊢
      exact h
  | some l =>
    cases upper with
    | none =>
      simp only [boundsConsistent, Option.map_none, Option.map_some, Extended.isNaN_ofFloat] at h ⊢
      exact h
    | some u =>
      simp only [boundsConsistent, Bool.and_eq_true, Bool.not_eq_true'] at h
      simp only [boundsConsistent, Option.map_some, Extended.isNaN_ofFloat, h.1.1, h.1.2, hlt h.2]
      rfl

theorem Problem.Valid.exact {p : Problem Float} (h : p.Valid) : p.exact.Valid := by
  have hlength : p.exact.columns.length = p.columns.length := List.length_map ..
  constructor
  · rw [hlength]
    exact h.objective.exact
  · intro c hc
    obtain ⟨d, hd, rfl⟩ := List.mem_map.1 hc
    rw [hlength]
    exact ⟨(h.rows d hd).1.exact, (Extended.isNaN_ofFloat d.bound).trans (h.rows d hd).2⟩
  · intro c hc
    obtain ⟨d, hd, rfl⟩ := List.mem_map.1 hc
    exact boundsConsistent_exact (h.columns d hd)

theorem Problem.validate_exact {p : Problem Float} (h : p.validate = .ok ()) :
    p.exact.validate = .ok () :=
  validate_eq_ok_iff_valid.2 (validate_eq_ok_iff_valid.1 h).exact

end LinearProgram
