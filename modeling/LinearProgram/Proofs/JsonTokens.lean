import LinearProgram.Json.Decode
import LinearProgram.Json.Reader
import LinearProgram.Json.Writer
import LinearProgram.Proofs.NumeralText

/-! Strings and numbers of JSON documents: what is written of them is read again, whatever follows
it. -/

namespace LinearProgram.Json

/-! Blanks in front make no difference to a reader. -/

theorem skipBlanks_skipBlanks (cs : List Char) : skipBlanks (skipBlanks cs) = skipBlanks cs :=
  List.dropWhile_idempotent _ cs

theorem readValue?_skipBlanks (n : Nat) (cs : List Char) :
    readValue? n (skipBlanks cs) = readValue? n cs := by
  cases n with
  | zero => rfl
  | succ n => rw [readValue?, readValue?, skipBlanks_skipBlanks]

theorem readItems?_skipBlanks (n : Nat) (cs : List Char) :
    readValue?.readItems? n (skipBlanks cs) = readValue?.readItems? n cs := by
  cases n with
  | zero => rfl
  | succ n => rw [readValue?.readItems?, readValue?.readItems?, readValue?_skipBlanks]

theorem readMembers?_skipBlanks (n : Nat) (cs : List Char) :
    readValue?.readMembers? n (skipBlanks cs) = readValue?.readMembers? n cs := by
  cases n with
  | zero => rfl
  | succ n => rw [readValue?.readMembers?, readValue?.readMembers?, skipBlanks_skipBlanks]

/-! A document is written as one character at least, so a reader that may take twice as many steps
as there are characters can start on it. -/

theorem prettyChars_ne_nil {j : Json} (hj : j ≠ .number []) (depth : Nat) :
    prettyChars depth j ≠ [] := by
  cases j with
  | null => simp [prettyChars]
  | bool b => cases b <;> simp [prettyChars]
  | number cs => simpa [prettyChars] using hj
  | string s => simp [prettyChars, quoteText, quote]
  | array items => cases items <;> simp [prettyChars]
  | object members => cases members <;> simp [prettyChars]

theorem exists_eq_succ_of_length_le {j : Json} (hj : j ≠ .number []) {depth n : Nat}
    (hn : 2 * (prettyChars depth j).length ≤ n) : ∃ k, n = k + 1 := by
  have hpos := List.length_pos_iff.2 (prettyChars_ne_nil hj depth)
  exact ⟨n - 1, by omega⟩

/-! The characters of a string, and the parts of a number. -/

theorem hexDigits_spec : ∀ n < 32, (hexDigits n).length = 4 ∧ hexNumber? (hexDigits n) = some n := by
  decide

theorem readUnits?_hex {c : Char} (hc : c.toNat < 32) (cs : List Char) :
    readUnits? ('\\' :: 'u' :: (hexDigits c.toNat ++ cs)) =
      (readUnits? cs).map fun (us, rest) => (.char c :: us, rest) := by
  obtain ⟨hlen, hnum⟩ := hexDigits_spec c.toNat hc
  have hcode : Unit16.ofCode c.toNat = .char c := by
    rw [Unit16.ofCode, if_neg (by simp; omega), if_neg (by simp; omega), Char.ofNat_toNat]
  generalize hexDigits c.toNat = ds at *
  match ds, hlen with
  | [a, b, d, e], _ =>
    show readUnits? ('\\' :: 'u' :: a :: b :: d :: e :: cs) = _
    rw [readUnits?, hnum]
    cases readUnits? cs with
    | none => rfl
    | some r => simp [hcode]

theorem readUnits?_plain {c : Char} (hq : c ≠ '"') (hb : c ≠ '\\') (hc : ¬ c.toNat < 32)
    (cs : List Char) :
    readUnits? (c :: cs) = (readUnits? cs).map fun (us, rest) => (.char c :: us, rest) := by
  rw [readUnits?.eq_def]
  split <;> simp_all

theorem readUnits?_escapeChar (c : Char) (cs : List Char) :
    readUnits? (escapeChar c ++ cs) =
      (readUnits? cs).map fun (us, rest) => (.char c :: us, rest) := by
  have hshort (e : Char) (h : shortEscape? e = some c) (hu : e ≠ 'u') :
      readUnits? ('\\' :: e :: cs) =
        (readUnits? cs).map fun (us, rest) => (.char c :: us, rest) := by
    rw [readUnits?]
    · rw [h]
      cases readUnits? cs <;> rfl
    · rintro _ _ _ _ _ rfl
      exact absurd rfl hu
  unfold escapeChar
  split
  · exact hshort '"' rfl (by decide)
  · exact hshort '\\' rfl (by decide)
  · exact hshort 'b' rfl (by decide)
  · exact hshort 'f' rfl (by decide)
  · exact hshort 'n' rfl (by decide)
  · exact hshort 'r' rfl (by decide)
  · exact hshort 't' rfl (by decide)
  · rename_i hq hb _ _ _ _ _
    split
    · exact readUnits?_hex ‹_› cs
    · exact readUnits?_plain hq hb ‹_› cs

theorem readUnits?_escaped (cs rest : List Char) :
    readUnits? (cs.flatMap escapeChar ++ '"' :: rest) = some (cs.map .char, rest) := by
  induction cs with
  | nil => rfl
  | cons c cs ih =>
    rw [List.flatMap_cons, List.append_assoc, readUnits?_escapeChar, ih]
    rfl

theorem joinUnits_map_char (cs : List Char) : joinUnits (cs.map .char) = some cs := by
  induction cs with
  | nil => rfl
  | cons c cs ih => rw [List.map_cons, joinUnits, ih, Option.map_some]

theorem readString?_quote (s : String) (rest : List Char) :
    ∃ cs, quote s = '"' :: cs ∧ readString? (cs ++ rest) = some (some s, rest) := by
  refine ⟨s.toList.flatMap escapeChar ++ ['"'], rfl, ?_⟩
  rw [List.append_assoc, readString?, List.singleton_append, readUnits?_escaped, Option.map_some]
  dsimp only
  rw [joinUnits_map_char, Option.map_some, String.ofList_toList]

open Decimal

/-- What follows does not go on with a number. -/
def Delimits (cs : List Char) : Prop :=
  ∀ c ∈ cs.head?, c.isDigit = false ∧ c ≠ '.' ∧ c ≠ 'e' ∧ c ≠ 'E'

theorem Delimits.stops {cs : List Char} (h : Delimits cs) : Stops cs :=
  fun c hc => (h c hc).1

/-- The digits of a whole number, which do not start with a zero they could do without. -/
structure IsWhole (ws : List Char) : Prop where
  digits : IsDigits ws
  head : ws.head? = some '0' → ws = ['0']

theorem readWhole?_append {ws rest : List Char} (hw : IsWhole ws) (hs : Stops rest) :
    readWhole? (ws ++ rest) = some (ws, rest) := by
  obtain ⟨hd, h0⟩ := hw
  have hrun := digitRun_digits hd.2 hs
  unfold readWhole?
  split
  · rename_i heq
    cases ws with
    | nil => exact absurd rfl hd.1
    | cons c ws =>
      obtain ⟨rfl, rfl⟩ := List.cons.inj heq
      obtain rfl : ws = [] := (List.cons.inj (h0 rfl)).2
      rfl
  · rw [hrun]
    simp [hd.1]

/-- Nothing, or a point and digits. -/
def IsPart (ps : List Char) : Prop :=
  ps = [] ∨ ∃ ds, IsDigits ds ∧ ps = '.' :: ds

theorem readPart?_append {ps rest : List Char} (hp : IsPart ps) (hs : Stops rest)
    (hr : ∀ c ∈ rest.head?, c ≠ '.') : readPart? (ps ++ rest) = some (ps, rest) := by
  rcases hp with rfl | ⟨ds, hd, rfl⟩
  · cases rest with
    | nil => rfl
    | cons c rest =>
      rw [List.nil_append, readPart?.eq_def]
      split
      · rename_i heq
        exact absurd (List.cons.inj heq).1 (hr c rfl)
      · rfl
  · rw [List.cons_append, readPart?, digitRun_digits hd.2 hs]
    simp [hd.1]

/-- Nothing, or a signed power of ten. -/
def IsPower (ps : List Char) : Prop :=
  ps = [] ∨ ∃ sign ds, (sign = '+' ∨ sign = '-') ∧ IsDigits ds ∧ ps = 'e' :: sign :: ds

theorem readPower?_append {ps rest : List Char} (hp : IsPower ps) (hr : Delimits rest) :
    readPower? (ps ++ rest) = some (ps, rest) := by
  rcases hp with rfl | ⟨sign, ds, hs, hd, rfl⟩
  · cases rest with
    | nil => rfl
    | cons c rest =>
      obtain ⟨-, -, he, he'⟩ := hr c rfl
      show (if c = 'e' ∨ c = 'E' then _ else _) = _
      rw [if_neg (by simp [he, he'])]
  · have hrun := digitRun_digits hd.2 hr.stops
    have hempty : ds.isEmpty = false := List.isEmpty_eq_false_iff.2 hd.1
    rw [List.cons_append, List.cons_append]
    unfold readPower?
    dsimp only
    rw [if_pos (.inl rfl)]
    rcases hs with rfl | rfl
    · simp [hrun, hempty]
    · simp [hrun, hempty]

/-- The text of a number without a sign. -/
def IsMagnitude (cs : List Char) : Prop :=
  ∃ ws ps es, cs = ws ++ (ps ++ es) ∧ IsWhole ws ∧ IsPart ps ∧ IsPower es

theorem Delimits.power_append {es rest : List Char} (he : IsPower es) (hr : Delimits rest) :
    ∀ c ∈ (es ++ rest).head?, c.isDigit = false ∧ c ≠ '.' := by
  rcases he with rfl | ⟨sign, ds, -, -, rfl⟩
  · exact fun c hc => ⟨(hr c hc).1, (hr c hc).2.1⟩
  · rintro c ⟨⟩
    exact ⟨by decide, by decide⟩

theorem IsPart.stops_append {ps rest : List Char} (hp : IsPart ps) (hr : Stops rest) :
    Stops (ps ++ rest) := by
  rcases hp with rfl | ⟨ds, -, rfl⟩
  · exact hr
  · exact stops_cons (by decide) _

theorem IsMagnitude.exists_digit {cs : List Char} (h : IsMagnitude cs) :
    ∃ d ds, cs = d :: ds ∧ d.isDigit = true := by
  obtain ⟨ws, ps, es, rfl, hw, -, -⟩ := h
  cases ws with
  | nil => exact absurd rfl hw.digits.1
  | cons d ws => exact ⟨d, _, rfl, hw.digits.2 d List.mem_cons_self⟩

theorem IsMagnitude.readNumber?_append {cs rest : List Char} (h : IsMagnitude cs)
    (hr : Delimits rest) :
    readNumber? (cs ++ rest) = some (cs, rest) ∧
      readNumber? ('-' :: (cs ++ rest)) = some ('-' :: cs, rest) := by
  obtain ⟨d, ds, hcs, hd⟩ := h.exists_digit
  obtain ⟨ws, ps, es, rfl, hw, hp, he⟩ := h
  have hpower := readPower?_append he hr
  have hes := Delimits.power_append he hr
  have hstop : Stops (es ++ rest) := fun c hc => (hes c hc).1
  have hpart := readPart?_append hp hstop fun c hc => (hes c hc).2
  have hwhole := readWhole?_append hw (hp.stops_append hstop)
  have hminus : d ≠ '-' := by
    rintro rfl
    exact absurd hd (by decide)
  have htext : ws ++ (ps ++ (es ++ rest)) = d :: (ds ++ rest) := by
    rw [← List.cons_append, ← hcs, List.append_assoc, List.append_assoc]
  rw [htext] at hwhole
  constructor
  · rw [hcs, List.cons_append]
    simp [readNumber?, hminus, hwhole, hpart, hpower, hcs]
  · rw [hcs, List.cons_append]
    simp [readNumber?, hwhole, hpart, hpower, hcs]

/-- What is written of a number, with or without a sign. -/
def IsNumeral (cs : List Char) : Prop :=
  IsMagnitude cs ∨ ∃ ds, IsMagnitude ds ∧ cs = '-' :: ds

theorem IsNumeral.readNumber?_append {cs rest : List Char} (h : IsNumeral cs) (hr : Delimits rest) :
    readNumber? (cs ++ rest) = some (cs, rest) := by
  rcases h with h | ⟨ds, h, rfl⟩
  · exact (h.readNumber?_append hr).1
  · exact (h.readNumber?_append hr).2

theorem IsNumeral.exists_head {cs : List Char} (h : IsNumeral cs) :
    ∃ c ds, cs = c :: ds ∧ (c = '-' ∨ c.isDigit = true) := by
  rcases h with h | ⟨ds, -, rfl⟩
  · obtain ⟨d, ds, rfl, hd⟩ := h.exists_digit
    exact ⟨d, ds, rfl, .inr hd⟩
  · exact ⟨'-', ds, rfl, .inl rfl⟩

theorem head_digitChars_ne (n : Nat) (hn : 0 < n) : (digitChars n).head? ≠ some '0' := by
  have hdigit : ∀ d < 10, 0 < d → Nat.digitChar d ≠ '0' := by decide
  induction n using Nat.strongRecOn with
  | ind n ih =>
    rw [digitChars, Nat.toDigits_eq_if (by decide)]
    split
    · simpa using hdigit n ‹_› hn
    · have hih := ih (n / 10) (by omega) (by omega)
      have hne := (isDigits_digitChars (n / 10)).1
      rw [digitChars] at hih hne
      rwa [List.head?_append_of_ne_nil _ hne]

theorem isWhole_digitChars (n : Nat) : IsWhole (digitChars n) := by
  refine ⟨isDigits_digitChars n, fun h0 => ?_⟩
  rcases Nat.eq_zero_or_pos n with rfl | hn
  · rfl
  · exact absurd h0 (head_digitChars_ne n hn)

theorem isNumeral_digitChars (n : Nat) : IsNumeral (digitChars n) :=
  .inl ⟨digitChars n, [], [], by simp, isWhole_digitChars n, .inl rfl, .inl rfl⟩

theorem isMagnitude_positional (d : Digits) (hd : 0 < d.digits) :
    IsMagnitude (if 0 ≤ d.exponent then d.positional ++ ['.', '0'] else d.positional) := by
  have hds := isDigits_digitChars d.digits
  have hhead := head_digitChars_ne d.digits hd
  unfold Digits.positional
  dsimp only
  split
  · refine ⟨digitChars d.digits ++ zeros d.exponent.toNat, ['.', '0'], [], by simp,
      ⟨isDigits_append_zeros hds _, fun h => ?_⟩, .inr ⟨['0'], ⟨by simp, by simp⟩, rfl⟩, .inl rfl⟩
    rw [List.head?_append_of_ne_nil _ hds.1] at h
    exact absurd h hhead
  · rename_i he
    split
    · rename_i hp
      refine ⟨(digitChars d.digits).take ((digitChars d.digits).length - (-d.exponent).toNat),
        '.' :: (digitChars d.digits).drop ((digitChars d.digits).length - (-d.exponent).toNat), [],
        by simp, ⟨⟨?_, fun c hc => hds.2 c (List.mem_of_mem_take hc)⟩, fun h => ?_⟩,
        .inr ⟨_, ⟨?_, fun c hc => hds.2 c (List.mem_of_mem_drop hc)⟩, rfl⟩, .inl rfl⟩
      · simp only [ne_eq, List.take_eq_nil_iff, hds.1, or_false]
        omega
      · rw [List.head?_take, if_neg (by omega)] at h
        exact absurd h hhead
      · simp only [ne_eq, List.drop_eq_nil_iff]
        omega
    · refine ⟨['0'], '.' :: (zeros ((-d.exponent).toNat - (digitChars d.digits).length) ++
        digitChars d.digits), [], by simp, ⟨⟨by simp, by simp⟩, fun _ => rfl⟩,
        .inr ⟨_, ⟨by simp [hds.1], fun c hc => ?_⟩, rfl⟩, .inl rfl⟩
      rcases List.mem_append.1 hc with hc | hc
      · rw [List.eq_of_mem_replicate hc]
        decide
      · exact hds.2 c hc

theorem isMagnitude_scientific (d : Digits) (hd : 0 < d.digits) : IsMagnitude d.scientific := by
  have hds := isDigits_digitChars d.digits
  have hhead := head_digitChars_ne d.digits hd
  have hpower : IsPower ('e' :: (if d.magnitude < 0 then '-' else '+') ::
      digitChars d.magnitude.natAbs) := by
    refine .inr ⟨_, _, ?_, isDigits_digitChars _, rfl⟩
    split
    · exact .inr rfl
    · exact .inl rfl
  unfold Digits.scientific
  generalize digitChars d.digits = cs at *
  cases cs with
  | nil => exact absurd rfl hds.1
  | cons c cs =>
    have hc : IsWhole [c] :=
      ⟨⟨by simp, by simpa using hds.2 c List.mem_cons_self⟩, fun h => absurd h hhead⟩
    cases cs with
    | nil => exact ⟨[c], [], _, rfl, hc, .inl rfl, hpower⟩
    | cons c' cs =>
      have hrest : IsDigits (c' :: cs) :=
        ⟨List.cons_ne_nil _ _, fun x hx => hds.2 x (List.mem_cons_of_mem _ hx)⟩
      exact ⟨[c], '.' :: c' :: cs, _, by simp, hc, .inr ⟨_, hrest, rfl⟩, hpower⟩

open Binary64

theorem shortest_pos (tie : Tie) {x : Float} (hf : isFinite x = true) (hm : mantissa x ≠ 0) :
    0 < (shortest tie x).digits := by
  have hc := (contains_shortest tie hf hm).low
  obtain ⟨-, -, hlow, -⟩ := Interval.around_spec hm
  refine Nat.pos_of_ne_zero fun h0 => ?_
  rw [h0, Nat.cast_zero, zero_mul] at hc
  have hpos : (0 : Rat) < (Interval.around x).low * 2 ^ (Interval.around x).scale := by
    have : (0 : Rat) < (Interval.around x).low := by exact_mod_cast Nat.lt_of_lt_of_le (by decide) hlow
    positivity
  exact absurd hc (not_le.2 hpos)

/-- The text of a finite number, without its sign. -/
def floatText (x : Float) : List Char :=
  if mantissa x = 0 then ['0', '.', '0'] else floatLayout.magnitudeChars (shortest .even x)

theorem chars_floatLayout {x : Float} (hf : isFinite x = true) :
    floatLayout.chars x = signed x (floatText x) := by
  unfold Layout.chars floatText
  rw [isNaN_of_isFinite hf, hf]
  simp only [Bool.false_eq_true, if_false, Bool.not_true]
  split <;> rfl

theorem isMagnitude_floatText {x : Float} (hf : isFinite x = true) : IsMagnitude (floatText x) := by
  unfold floatText
  split
  · exact ⟨['0'], ['.', '0'], [], rfl, isWhole_digitChars 0, .inr ⟨['0'], ⟨by simp, by simp⟩, rfl⟩,
      .inl rfl⟩
  · rename_i hm
    have hd := shortest_pos .even hf hm
    unfold Layout.magnitudeChars
    split
    · exact isMagnitude_positional _ hd
    · exact isMagnitude_scientific _ hd

theorem isNumeral_chars {x : Float} (hf : isFinite x = true) : IsNumeral (floatLayout.chars x) := by
  rw [chars_floatLayout hf, signed]
  split
  · exact .inr ⟨_, isMagnitude_floatText hf, rfl⟩
  · exact .inl (isMagnitude_floatText hf)

theorem readDecimal?_floatText {x : Float} (hf : isFinite x = true) :
    (readDecimal? (isNegative x) (floatText x)).map Numeral.toFloat = some x := by
  unfold floatText
  split
  · rename_i hm
    have h : readDecimal? (isNegative x) ['0', '.', '0'] = some ⟨isNegative x, 0, -1⟩ := by
      cases isNegative x <;> rfl
    rw [h, Option.map_some, Numeral.toFloat, ofDecimal]
    exact congrArg some (ofBitPattern_zero hm)
  · rename_i hm
    refine toFloat_of_denotes hf hm .even ?_
    unfold Layout.magnitudeChars
    split
    · split
      · exact denotes_positional_zero _ ‹_›
      · exact denotes_positional _
    · exact denotes_scientific _

end LinearProgram.Json
