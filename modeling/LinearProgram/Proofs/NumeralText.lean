import LinearProgram.Binary64.Arithmetic
import LinearProgram.Decimal.Numeral
import LinearProgram.Proofs.ShortestDigits
import LinearProgram.Proofs.WordsAndLines

/-! The text of a number is read back as the number. -/

namespace LinearProgram.Decimal

open Binary64

/-- At least one character, and only digits. -/
def IsDigits (cs : List Char) : Prop :=
  cs ≠ [] ∧ ∀ c ∈ cs, c.isDigit = true

theorem isDigits_digitChars (n : Nat) : IsDigits (digitChars n) :=
  ⟨Nat.toDigits_ne_nil, fun _ hc => Nat.isDigit_of_mem_toDigits (by decide) (by decide) hc⟩

theorem digitsValue_digitChars (n : Nat) : digitsValue (digitChars n) = n :=
  Nat.ofDigitChars_ten_toDigits

theorem repr_inj {m n : Nat} (h : Nat.repr m = Nat.repr n) : m = n := by
  have hd := congrArg (fun s => digitsValue s.toList) h
  simp only [Nat.toList_repr] at hd
  rwa [← digitsValue_digitChars m, ← digitsValue_digitChars n]

theorem digitsValue_append_zeros (ds : List Char) (n : Nat) :
    digitsValue (ds ++ zeros n) = digitsValue ds * 10 ^ n := by
  have h : Nat.ofDigitChars 10 (List.replicate n '0') (digitsValue ds) = 10 ^ n * digitsValue ds :=
    Nat.ofDigitChars_replicate_zero
  rw [Nat.mul_comm, ← h, digitsValue, List.foldl_append]
  rfl

theorem digitsValue_zeros_append (n : Nat) (ds : List Char) :
    digitsValue (zeros n ++ ds) = digitsValue ds := by
  have h : Nat.ofDigitChars 10 (List.replicate n '0') 0 = 10 ^ n * 0 :=
    Nat.ofDigitChars_replicate_zero
  rw [Nat.mul_zero] at h
  rw [digitsValue, List.foldl_append]
  exact congrArg (List.foldl _ · ds) h

/-- What follows does not go on with a digit. -/
def Stops (cs : List Char) : Prop :=
  ∀ c ∈ cs.head?, c.isDigit = false

theorem stops_nil : Stops [] :=
  nofun

theorem stops_cons {c : Char} (hc : c.isDigit = false) (cs : List Char) : Stops (c :: cs) := by
  rintro _ ⟨⟩
  exact hc

theorem digitRun_digits {ds rest : List Char} (hd : ∀ c ∈ ds, c.isDigit = true)
    (hr : Stops rest) : digitRun (ds ++ rest) = (ds, rest) := by
  rw [digitRun, List.takeWhile_append_of_pos hd, List.dropWhile_append_of_pos hd]
  cases rest with
  | nil => simp
  | cons c rest => simp [hr c rfl]

theorem splitFraction_of_ne {cs : List Char} (h : ∀ c ∈ cs.head?, c ≠ '.') :
    splitFraction cs = ([], cs) := by
  cases cs with
  | nil => rfl
  | cons c cs =>
    have hc : c ≠ '.' := h c rfl
    unfold splitFraction
    split
    · rename_i heq
      exact absurd (List.cons.inj heq).1 hc
    · rfl

theorem readDecimal?_whole (negative : Bool) {ws rest : List Char} {p : Int} (hw : IsDigits ws)
    (hs : Stops rest) (hr : ∀ c ∈ rest.head?, c ≠ '.') (hp : readPower? rest = some p) :
    readDecimal? negative (ws ++ rest) = some ⟨negative, digitsValue ws, p⟩ := by
  unfold readDecimal?
  rw [digitRun_digits hw.2 hs]
  dsimp only
  rw [splitFraction_of_ne hr]
  simp [hw.1, hp]

theorem readDecimal?_point (negative : Bool) {ws ds rest : List Char} {p : Int} (hw : IsDigits ws)
    (hd : ∀ c ∈ ds, c.isDigit = true) (hs : Stops rest) (hp : readPower? rest = some p) :
    readDecimal? negative (ws ++ '.' :: (ds ++ rest)) =
      some ⟨negative, digitsValue (ws ++ ds), p - ds.length⟩ := by
  unfold readDecimal?
  rw [digitRun_digits hw.2 (stops_cons (by decide) _)]
  dsimp only
  rw [splitFraction, digitRun_digits hd hs]
  simp [hw.1, hp]

theorem readInt?_digits {ds : List Char} (hd : IsDigits ds) :
    readInt? ('+' :: ds) = some (digitsValue ds : Int) ∧
      readInt? ('-' :: ds) = some (-(digitsValue ds : Int)) := by
  have hrun : digitRun ds = (ds, []) := by
    have h := digitRun_digits hd.2 stops_nil
    rwa [List.append_nil] at h
  constructor
  · simp [readInt?, splitSign, hrun, hd.1]
  · simp [readInt?, splitSign, hrun, hd.1]

/-- The text stands for the number, in whichever form it is written. -/
def Denotes (cs : List Char) (r : Rat) : Prop :=
  ∀ negative, ∃ n e, readDecimal? negative cs = some ⟨negative, n, e⟩ ∧ (n : Rat) * 10 ^ e = r

theorem denotes_whole {ws : List Char} (hw : IsDigits ws) : Denotes ws (digitsValue ws) := by
  intro negative
  have h := readDecimal?_whole negative hw stops_nil nofun rfl
  rw [List.append_nil] at h
  exact ⟨_, _, h, by simp⟩

theorem denotes_point {ws ds : List Char} (hw : IsDigits ws) (hd : ∀ c ∈ ds, c.isDigit = true) :
    Denotes (ws ++ '.' :: ds) (digitsValue (ws ++ ds) * 10 ^ (-ds.length : Int)) := by
  intro negative
  have h := readDecimal?_point negative hw hd stops_nil rfl
  rw [List.append_nil] at h
  exact ⟨_, _, h, by simp⟩

theorem isDigits_append_zeros {ds : List Char} (hd : IsDigits ds) (n : Nat) :
    IsDigits (ds ++ zeros n) := by
  refine ⟨by simp [hd.1], fun c hc => ?_⟩
  rcases List.mem_append.1 hc with hc | hc
  · exact hd.2 c hc
  · rw [List.eq_of_mem_replicate hc]
    decide

theorem value_of_nonneg (d : Digits) (he : 0 ≤ d.exponent) :
    (digitsValue (digitChars d.digits ++ zeros d.exponent.toNat) : Rat) =
      d.digits * 10 ^ d.exponent := by
  obtain ⟨n, hn⟩ := Int.eq_ofNat_of_zero_le he
  rw [digitsValue_append_zeros, digitsValue_digitChars, hn, Int.toNat_natCast, zpow_natCast]
  push_cast
  rfl

theorem denotes_positional (d : Digits) : Denotes d.positional (d.digits * 10 ^ d.exponent) := by
  have hd := isDigits_digitChars d.digits
  unfold Digits.positional
  dsimp only
  split
  · rename_i he
    rw [← value_of_nonneg d he]
    exact denotes_whole (isDigits_append_zeros hd _)
  · rename_i he
    split
    · rename_i hp
      have hw : IsDigits ((digitChars d.digits).take
          ((digitChars d.digits).length - (-d.exponent).toNat)) := by
        refine ⟨?_, fun c hc => hd.2 c (List.mem_of_mem_take hc)⟩
        simp only [ne_eq, List.take_eq_nil_iff, hd.1, or_false]
        omega
      have hds : ∀ c ∈ (digitChars d.digits).drop
          ((digitChars d.digits).length - (-d.exponent).toNat), c.isDigit = true :=
        fun c hc => hd.2 c (List.mem_of_mem_drop hc)
      have h := denotes_point hw hds
      have hlen : (-(((digitChars d.digits).drop
          ((digitChars d.digits).length - (-d.exponent).toNat)).length : Int)) = d.exponent := by
        rw [List.length_drop]
        omega
      rwa [List.take_append_drop, digitsValue_digitChars, hlen] at h
    · rename_i hp
      have hds : ∀ c ∈ zeros ((-d.exponent).toNat - (digitChars d.digits).length) ++
          digitChars d.digits, c.isDigit = true := by
        intro c hc
        rcases List.mem_append.1 hc with hc | hc
        · rw [List.eq_of_mem_replicate hc]
          decide
        · exact hd.2 c hc
      have hzero : IsDigits ['0'] := ⟨by simp, by simp⟩
      have h := denotes_point hzero hds
      have hlen : (-((zeros ((-d.exponent).toNat - (digitChars d.digits).length) ++
          digitChars d.digits).length : Int)) = d.exponent := by
        rw [List.length_append, zeros, List.length_replicate]
        omega
      have hvalue : digitsValue (['0'] ++ (zeros ((-d.exponent).toNat -
          (digitChars d.digits).length) ++ digitChars d.digits)) = d.digits := by
        rw [show ['0'] = zeros 1 from rfl, digitsValue_zeros_append, digitsValue_zeros_append,
          digitsValue_digitChars]
      rwa [hlen, hvalue] at h

/-- A point and a zero after a whole number change nothing. -/
theorem denotes_positional_zero (d : Digits) (he : 0 ≤ d.exponent) :
    Denotes (d.positional ++ ['.', '0']) (d.digits * 10 ^ d.exponent) := by
  have hd := isDigits_append_zeros (isDigits_digitChars d.digits) d.exponent.toNat
  have hzero : ∀ c ∈ ['0'], c.isDigit = true := by simp
  have h := denotes_point hd hzero
  have hvalue := digitsValue_append_zeros (digitChars d.digits ++ zeros d.exponent.toNat) 1
  rw [show zeros 1 = ['0'] from rfl] at hvalue
  rw [hvalue, Nat.cast_mul, value_of_nonneg d he] at h
  have hten : (d.digits * 10 ^ d.exponent * (10 ^ 1 : Nat) * 10 ^ (-(['0'].length : Int)) : Rat) =
      d.digits * 10 ^ d.exponent := by
    simp
  rw [hten] at h
  rwa [Digits.positional, if_pos he]

theorem readPower?_magnitude (n : Int) :
    readPower? ('e' :: (if n < 0 then '-' else '+') :: digitChars n.natAbs) = some n := by
  obtain ⟨hp, hm⟩ := readInt?_digits (isDigits_digitChars n.natAbs)
  rw [digitsValue_digitChars] at hp hm
  rw [readPower?, if_pos (.inl rfl)]
  split
  · rename_i hn
    rw [hm]
    congr 1
    omega
  · rename_i hn
    rw [hp]
    congr 1
    omega

theorem denotes_scientific (d : Digits) : Denotes d.scientific (d.digits * 10 ^ d.exponent) := by
  intro negative
  have hd := isDigits_digitChars d.digits
  have hvalue := digitsValue_digitChars d.digits
  have hpower := readPower?_magnitude d.magnitude
  unfold Digits.scientific
  have hmag : d.magnitude = d.exponent + (digitChars d.digits).length - 1 := rfl
  generalize digitChars d.digits = cs at *
  cases cs with
  | nil => exact absurd rfl hd.1
  | cons c cs =>
    have hc : IsDigits [c] := ⟨by simp, by simpa using hd.2 c List.mem_cons_self⟩
    have hstop : Stops ('e' :: (if d.magnitude < 0 then '-' else '+') ::
        digitChars d.magnitude.natAbs) := stops_cons (by decide) _
    cases cs with
    | nil =>
      have hexp : d.magnitude = d.exponent := by
        rw [hmag, List.length_singleton]
        omega
      rw [hexp] at hpower hstop
      have h := readDecimal?_whole negative hc hstop (by simp) hpower
      rw [hvalue] at h
      exact ⟨_, _, by simpa [hexp] using h, rfl⟩
    | cons c' cs =>
      have hds : ∀ x ∈ c' :: cs, x.isDigit = true :=
        fun x hx => hd.2 x (List.mem_cons_of_mem _ hx)
      have h := readDecimal?_point negative hc hds hstop hpower
      have hexp : d.magnitude - (c' :: cs).length = d.exponent := by
        rw [hmag]
        simp only [List.length_cons]
        push_cast
        omega
      rw [List.singleton_append, List.singleton_append, hvalue, hexp] at h
      exact ⟨_, _, by simpa using h, rfl⟩

/-- A text of the shortest digits of a number is read as the number. -/
theorem toFloat_of_denotes {x : Float} (hf : isFinite x = true) (hm : mantissa x ≠ 0) (tie : Tie)
    {cs : List Char} (h : Denotes cs ((shortest tie x).digits * 10 ^ (shortest tie x).exponent)) :
    (readDecimal? (isNegative x) cs).map Numeral.toFloat = some x := by
  obtain ⟨n, e, hr, hv⟩ := h (isNegative x)
  have hc := contains_shortest tie hf hm
  rw [← hv] at hc
  rw [hr, Option.map_some, Numeral.toFloat, ofDecimal_of_contains hf hm hc]

theorem ofBitPattern_zero {x : Float} (hm : mantissa x = 0) : ofBitPattern (isNegative x) 0 = x := by
  have hb : biasedExponent x = 0 := by
    by_contra hb
    rw [mantissa, if_neg hb, fractionSize] at hm
    omega
  have hf : fraction x = 0 := by rwa [mantissa, if_pos hb] at hm
  have h := ofBitPattern_fields x
  rwa [hb, hf] at h

theorem toFloat_zero {x : Float} (hm : mantissa x = 0) :
    (readDecimal? (isNegative x) ['0']).map Numeral.toFloat = some x := by
  have h : readDecimal? (isNegative x) ['0'] = some ⟨isNegative x, 0, 0⟩ := by
    cases isNegative x <;> rfl
  rw [h, Option.map_some, Numeral.toFloat, ofDecimal]
  exact congrArg some (ofBitPattern_zero hm)

/-- The text of a finite number, without its sign. -/
def magnitudeText (x : Float) : List Char :=
  if mantissa x = 0 then ['0'] else (shortest .up x).positional

theorem chars_of_isFinite {x : Float} (hf : isFinite x = true) :
    plain.chars x = signed x (magnitudeText x) := by
  rw [Layout.chars, if_neg (by simp [isNaN_of_isFinite hf]), if_neg (by simp [hf]), magnitudeText]
  split
  · rfl
  · rw [Layout.magnitudeChars]
    simp [plain]

theorem mem_positional {d : Digits} {c : Char} (hc : c ∈ d.positional) :
    c.isDigit = true ∨ c = '.' := by
  have hd := (isDigits_digitChars d.digits).2
  have hz {n : Nat} {c : Char} (hc : c ∈ zeros n) : c.isDigit = true := by
    rw [List.eq_of_mem_replicate hc]
    decide
  unfold Digits.positional at hc
  dsimp only at hc
  split at hc
  · exact .inl ((isDigits_append_zeros (isDigits_digitChars d.digits) _).2 c hc)
  · split at hc
    · rcases List.mem_append.1 hc with hc | hc
      · exact .inl (hd c (List.mem_of_mem_take hc))
      · rcases List.mem_cons.1 hc with hc | hc
        · exact .inr hc
        · exact .inl (hd c (List.mem_of_mem_drop hc))
    · rcases List.mem_cons.1 hc with rfl | hc
      · exact .inl (by decide)
      · rcases List.mem_cons.1 hc with hc | hc
        · exact .inr hc
        · rcases List.mem_append.1 hc with hc | hc
          · exact .inl (hz hc)
          · exact .inl (hd c hc)

theorem exists_digit_positional (d : Digits) :
    ∃ c cs, d.positional = c :: cs ∧ c.isDigit = true := by
  have hd := isDigits_digitChars d.digits
  unfold Digits.positional
  dsimp only
  generalize digitChars d.digits = ds at *
  cases ds with
  | nil => exact absurd rfl hd.1
  | cons c ds =>
    have hc := hd.2 c List.mem_cons_self
    split
    · exact ⟨c, _, rfl, hc⟩
    · split
      · rename_i hp
        obtain ⟨n, hn⟩ := Nat.exists_eq_add_of_lt hp
        have hn' : (c :: ds).length - (-d.exponent).toNat = n + 1 := by omega
        rw [hn']
        exact ⟨c, _, rfl, hc⟩
      · exact ⟨'0', _, rfl, by decide⟩

/-- A first digit tells a numeral from a sign and from a name. -/
theorem exists_digit_magnitudeText (x : Float) :
    ∃ c cs, magnitudeText x = c :: cs ∧ c.isDigit = true := by
  unfold magnitudeText
  split
  · exact ⟨'0', [], rfl, by decide⟩
  · exact exists_digit_positional _

theorem splitSign_signed {x : Float} {c : Char} (hc : c.isDigit = true) (cs : List Char) :
    splitSign (signed x (c :: cs)) = (isNegative x, c :: cs) := by
  unfold signed
  split
  · rename_i hn
    rw [hn]
    rfl
  · rename_i hn
    have hn' : isNegative x = false := by simpa using hn
    rw [hn']
    unfold splitSign
    split
    · rename_i h
      rw [(List.cons.inj h).1] at hc
      exact absurd hc (by decide)
    · rename_i h
      rw [(List.cons.inj h).1] at hc
      exact absurd hc (by decide)
    · rfl

theorem toLower_of_isDigit {c : Char} (hc : c.isDigit = true) : c.toLower = c := by
  simp only [Char.isDigit, Bool.and_eq_true, decide_eq_true_eq] at hc
  have hle := UInt32.le_iff_toNat_le.1 hc.2
  unfold Char.toLower
  rw [dif_neg]
  rintro ⟨hge, -⟩
  have hge := UInt32.le_iff_toNat_le.1 hge
  exact absurd (hge.trans hle) (by decide)

theorem readFloatChars?_signed {x : Float} {c : Char} (hc : c.isDigit = true) (cs : List Char) :
    readFloatChars? (signed x (c :: cs)) =
      (readDecimal? (isNegative x) (c :: cs)).map Numeral.toFloat := by
  have hne {d : Char} (hd : d.isDigit = false) (ds : List Char) :
      (c :: cs).map Char.toLower ≠ d :: ds := by
    intro h
    rw [List.map_cons, toLower_of_isDigit hc] at h
    rw [(List.cons.inj h).1, hd] at hc
    cases hc
  unfold readFloatChars?
  rw [splitSign_signed hc]
  dsimp only
  rw [if_neg, if_neg]
  · exact hne (by decide) _
  · rintro (h | h)
    · exact hne (by decide) _ h
    · exact hne (by decide) _ h

theorem readFloatChars?_chars (x : Float) : readFloatChars? (plain.chars x) = some x := by
  by_cases hf : isFinite x = true
  · obtain ⟨c, cs, hcs, hc⟩ := exists_digit_magnitudeText x
    rw [chars_of_isFinite hf, hcs, readFloatChars?_signed hc, ← hcs, magnitudeText]
    split
    · rename_i hm
      exact toFloat_zero hm
    · rename_i hm
      exact toFloat_of_denotes hf hm .up (denotes_positional _)
  · by_cases hn : isNaN x = true
    · rw [Layout.chars, if_pos hn, eq_notANumber hn]
      rfl
    · have hinf := ofBitPattern_infinite (by simpa using hf) (by simpa using hn)
      rw [Layout.chars, if_neg hn, if_pos (by simpa using hf)]
      split
      · rename_i hs
        rw [hs] at hinf
        exact congrArg some hinf
      · rename_i hs
        rw [Bool.eq_false_iff.2 hs] at hinf
        exact congrArg some hinf

/-- A number is read back from its text, also where it is none. -/
theorem readFloat?_text (x : Float) : readFloat? (Scalar.text x) = some x := by
  show readFloatChars? (String.ofList (plain.chars x)).toList = some x
  rw [String.toList_ofList, readFloatChars?_chars]

theorem isBlank_of_isDigit {c : Char} (hc : c.isDigit = true) : Text.isBlank c = false := by
  simp only [Char.isDigit, Bool.and_eq_true, decide_eq_true_eq, ge_iff_le,
    UInt32.le_iff_toNat_le] at hc
  have h1 : 48 ≤ c.toNat := hc.1
  have h2 : c.toNat ≤ 57 := hc.2
  simp only [Text.isBlank, Bool.or_eq_false_iff, Bool.and_eq_false_iff, decide_eq_false_iff_not,
    beq_eq_false_iff_ne]
  omega

theorem isWord_text (x : Float) : Text.IsWord (Scalar.text x).toList := by
  show Text.IsWord (String.ofList (plain.chars x)).toList
  rw [String.toList_ofList]
  by_cases hf : isFinite x = true
  · have hdigits : ∀ c ∈ magnitudeText x, Text.isBlank c = false := by
      intro c hc
      unfold magnitudeText at hc
      split at hc
      · rw [List.mem_singleton.1 hc]
        decide
      · rcases mem_positional hc with hc | rfl
        · exact isBlank_of_isDigit hc
        · decide
    obtain ⟨c, cs, hcs, -⟩ := exists_digit_magnitudeText x
    rw [chars_of_isFinite hf, signed]
    split
    · refine ⟨by simp, fun c hc => ?_⟩
      rcases List.mem_cons.1 hc with rfl | hc
      · decide
      · exact hdigits c hc
    · exact ⟨by simp [hcs], hdigits⟩
  · by_cases hn : isNaN x = true
    · rw [Layout.chars, if_pos hn]
      decide
    · rw [Layout.chars, if_neg hn, if_pos (by simpa using hf)]
      split
      · decide
      · decide

end LinearProgram.Decimal
