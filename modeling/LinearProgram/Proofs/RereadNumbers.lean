import LinearProgram.Json.Numerals
import LinearProgram.Proofs.JsonTokens

/-! What becomes of a number in a document. It is written with as few digits as tell it from its
neighbours, so whoever reads these digits exactly finds it again. -/

namespace LinearProgram.Json

open Binary64 Decimal

section Reading

variable [NumberReader] {f : Float → Float} {x : Float}

/-- What the text of a number is read as. -/
def reread? (x : Float) : Option Float :=
  NumberReader.read? (floatLayout.chars x)

/-- The text of the number, where it has one, is not refused. -/
def Legible (x : Float) : Prop :=
  isFinite x = true → (reread? x).isSome = true

/-- The text of the number, where it has one, is read as that number. -/
def ReadsBack (x : Float) : Prop :=
  isFinite x = true → reread? x = some x

def ReadsAs (f : Float → Float) (x : Float) : Prop :=
  isFinite x = true → reread? x = some (f x)

instance (x : Float) : Decidable (Legible x) :=
  inferInstanceAs (Decidable (_ → _))

instance (x : Float) : Decidable (ReadsBack x) :=
  inferInstanceAs (Decidable (_ → _))

def reread (x : Float) : Float :=
  if isFinite x then (reread? x).getD x else x

theorem ReadsBack.readsAs (h : ReadsBack x) : ReadsAs id x :=
  h

theorem ReadsBack.reread_eq (h : ReadsBack x) : reread x = x := by
  unfold reread
  split
  · rename_i hf
    rw [h hf, Option.getD_some]
  · rfl

theorem Legible.readsAs (h : Legible x) : ReadsAs reread x := by
  intro hf
  obtain ⟨y, hy⟩ := Option.isSome_iff_exists.1 (h hf)
  rw [reread, if_pos hf, hy, Option.getD_some]

/-- No number but a finite one is found in a document. -/
theorem toFloat?_float (h : ReadsAs f x) :
    (float x).toFloat? = if isFinite x then some (f x) else none := by
  unfold float
  split
  · exact h ‹_›
  · rfl

end Reading

theorem toNumeral?_signed {x : Float} {d : Char} (hd : d.isDigit = true) (ds : List Char) :
    toNumeral? (signed x (d :: ds)) = readDecimal? (isNegative x) (d :: ds) := by
  have hne : d ≠ '-' := by
    rintro rfl
    exact absurd hd (by decide)
  unfold signed
  cases isNegative x with
  | true => rfl
  | false => simp [toNumeral?, hne]

/-- Rounding once is enough to find any number again. -/
theorem readsBack_exactReader (x : Float) : @ReadsBack exactReader x := by
  intro hf
  obtain ⟨d, ds, htext, hd⟩ := (isMagnitude_floatText hf).exists_digit
  have hread := readDecimal?_floatText hf
  obtain ⟨n, hn, hx⟩ := Option.map_eq_some_iff.1 hread
  show (toNumeral? (floatLayout.chars x)).bind _ = some x
  rw [chars_floatLayout hf, htext, toNumeral?_signed hd, ← htext, hn]
  simp [hx, hf]

/-- The reader that rounds twice comes out next to this number. -/
example : ¬ ReadsBack 51.248178375505404 := by decide +kernel

end LinearProgram.Json
