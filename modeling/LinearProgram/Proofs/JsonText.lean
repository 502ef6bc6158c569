import LinearProgram.Proofs.JsonTokens

/-! A written document is read as the same one. -/

namespace LinearProgram.Json

/-- The documents of which every string has a text and every number is written as one. -/
inductive Sound : Json → Prop
  | null : Sound .null
  | bool (b : Bool) : Sound (.bool b)
  | number {cs : List Char} (h : IsNumeral cs) : Sound (.number cs)
  | string (s : String) : Sound (.string (some s))
  | array {items : List Json} (h : ∀ j ∈ items, Sound j) : Sound (.array items)
  | object {members : List (Option String × Json)} (hk : ∀ m ∈ members, m.1.isSome = true)
      (h : ∀ m ∈ members, Sound m.2) : Sound (.object members)

theorem skipBlanks_cons {c : Char} (hc : c ≠ ' ' ∧ c ≠ '\n' ∧ c ≠ '\t' ∧ c ≠ '\r')
    (cs : List Char) : skipBlanks (c :: cs) = c :: cs := by
  rw [skipBlanks, List.dropWhile_cons_of_neg (by simp [hc])]

theorem skipBlanks_lineBreak (depth : Nat) (cs : List Char) :
    skipBlanks (lineBreak depth ++ cs) = skipBlanks cs := by
  rw [lineBreak, List.cons_append, skipBlanks, List.dropWhile_cons_of_pos (by decide)]
  induction 2 * depth with
  | zero => rfl
  | succ n ih => rw [List.replicate_succ, List.cons_append, List.dropWhile_cons_of_pos (by decide), ih]

theorem readValue?_lineBreak (n depth : Nat) (cs : List Char) :
    readValue? n (lineBreak depth ++ cs) = readValue? n cs := by
  rw [← readValue?_skipBlanks, skipBlanks_lineBreak, readValue?_skipBlanks]

theorem readValue?_blank (n : Nat) (cs : List Char) :
    readValue? n (' ' :: cs) = readValue? n cs := by
  rw [← readValue?_skipBlanks, ← readValue?_skipBlanks n cs]
  rfl

theorem delimits_lineBreak (depth : Nat) (cs : List Char) : Delimits (lineBreak depth ++ cs) := by
  rintro c ⟨⟩
  decide

theorem delimits_comma (cs : List Char) : Delimits (',' :: cs) := by
  rintro c ⟨⟩
  decide

/-- The document is read off the front of a text, as deep as its own text allows. -/
def Readable (j : Json) : Prop :=
  ∀ depth n rest, Delimits rest → 2 * (prettyChars depth j).length ≤ n →
    readValue? n (prettyChars depth j ++ rest) = some (j, rest)

theorem readable_number {cs : List Char} (h : IsNumeral cs) : Readable (.number cs) := by
  intro depth n rest hr hn
  obtain ⟨c, ds, rfl, hc⟩ := h.exists_head
  have hread := h.readNumber?_append hr
  obtain ⟨n, rfl⟩ := exists_eq_succ_of_length_le (by simp) hn
  rw [prettyChars]
  have hne (d : Char) (hd : d ≠ '-' ∧ d.isDigit = false) : c ≠ d := by
    rintro rfl
    rcases hc with hc | hc
    · exact hd.1 hc
    · rw [hc] at hd
      exact absurd hd.2 (by decide)
  have hskip := skipBlanks_cons ⟨hne ' ' (by decide), hne '\n' (by decide), hne '\t' (by decide),
    hne '\r' (by decide)⟩ (ds ++ rest)
  rw [List.cons_append] at hread ⊢
  simp [readValue?, hskip, hread, hne '"' (by decide), hne 'n' (by decide), hne 't' (by decide),
    hne 'f' (by decide), hne '[' (by decide), hne '{' (by decide)]

theorem readable_string (s : String) : Readable (.string (some s)) := by
  intro depth n rest _ hn
  obtain ⟨cs, hq, hread⟩ := readString?_quote s rest
  obtain ⟨n, rfl⟩ := exists_eq_succ_of_length_le (by simp) hn
  rw [prettyChars, quoteText, Option.getD_some, hq]
  have hskip : skipBlanks ('"' :: (cs ++ rest)) = '"' :: (cs ++ rest) :=
    skipBlanks_cons (by decide) _
  rw [List.cons_append, readValue?, hskip]
  simp [hread]

theorem readable_null : Readable .null := by
  intro depth n rest _ hn
  obtain ⟨n, rfl⟩ := exists_eq_succ_of_length_le (by simp) hn
  rfl

theorem readable_bool (b : Bool) : Readable (.bool b) := by
  intro depth n rest _ hn
  obtain ⟨n, rfl⟩ := exists_eq_succ_of_length_le (by simp) hn
  cases b <;> rfl

theorem readValue?_bracket {cs rest : List Char} (h : skipBlanks cs = ']' :: rest) (n : Nat) :
    readValue? n cs = none := by
  cases n with
  | zero => rfl
  | succ n =>
    rw [readValue?, h]
    rfl

theorem readValue?_array {cs : List Char} (h : ∀ rest, skipBlanks cs ≠ ']' :: rest) (n : Nat) :
    readValue? (n + 1) ('[' :: cs) =
      (readValue?.readItems? n cs).map fun (items, rest) => (.array items, rest) := by
  rw [readValue?, skipBlanks_cons (by decide), ← readItems?_skipBlanks]
  grind

theorem readItems?_separate {items : List Json} (h : ∀ j ∈ items, Readable j) (hne : items ≠ [])
    (depth n : Nat) (hn : 2 * (separate [','] (prettyItems depth items)).length ≤ n)
    (outer : Nat) (rest : List Char) :
    readValue?.readItems? n
      (separate [','] (prettyItems depth items) ++ (lineBreak outer ++ ']' :: rest)) =
        some (items, rest) := by
  induction items generalizing n with
  | nil => exact absurd rfl hne
  | cons j items ih =>
    have hj := h j (by simp)
    cases items with
    | nil =>
      simp only [prettyItems, separate, List.length_append, List.append_assoc] at hn ⊢
      obtain ⟨n, rfl⟩ : ∃ k, n = k + 1 := ⟨n - 1, by simp [lineBreak] at hn; omega⟩
      have hread := hj depth n (lineBreak outer ++ ']' :: rest) (delimits_lineBreak _ _)
        (by simp [lineBreak] at hn; omega)
      have hskip : skipBlanks (lineBreak outer ++ ']' :: rest) = ']' :: rest := by
        rw [skipBlanks_lineBreak, skipBlanks_cons (by decide)]
      rw [readValue?.readItems?, readValue?_lineBreak, hread]
      simp [hskip]
    | cons k items =>
      have hrec := ih (fun j hj => h j (by simp [hj])) (by simp)
      simp only [prettyItems, separate, List.length_append, List.append_assoc] at hn hrec ⊢
      obtain ⟨n, rfl⟩ : ∃ k, n = k + 1 := ⟨n - 1, by simp [lineBreak] at hn; omega⟩
      have hread := hj depth n _ (delimits_comma (separate [',']
        ((lineBreak depth ++ prettyChars depth k) :: prettyItems depth items) ++
          (lineBreak outer ++ ']' :: rest))) (by simp [lineBreak] at hn; omega)
      have htail := hrec n (by simp at hn; omega)
      rw [readValue?.readItems?, readValue?_lineBreak, List.singleton_append, hread]
      simp only [Option.bind_eq_bind, Option.bind_some, skipBlanks_cons (c := ',') (by decide)]
      rw [htail]
      rfl

theorem readable_array {items : List Json} (h : ∀ j ∈ items, Readable j) :
    Readable (.array items) := by
  intro depth n rest _ hn
  obtain ⟨n, rfl⟩ := exists_eq_succ_of_length_le (by simp) hn
  cases items with
  | nil => rfl
  | cons j items =>
    simp only [prettyChars] at hn ⊢
    have hread := readItems?_separate h (by simp) (depth + 1) n (by simp at hn ⊢; omega) depth rest
    simp only [List.cons_append, List.append_assoc, List.nil_append]
    rw [readValue?_array _ n, hread]
    · rfl
    -- were the array closed at once, its items could not have been read
    intro tail htail
    obtain ⟨m, rfl⟩ : ∃ m, n = m + 1 := ⟨n - 1, by simp at hn; omega⟩
    rw [readValue?.readItems?, readValue?_bracket htail] at hread
    exact absurd hread (by simp)

theorem readValue?_object {cs : List Char} (h : ∀ rest, skipBlanks cs ≠ '}' :: rest) (n : Nat) :
    readValue? (n + 1) ('{' :: cs) =
      (readValue?.readMembers? n cs).map fun (members, rest) => (.object members, rest) := by
  rw [readValue?, skipBlanks_cons (by decide), ← readMembers?_skipBlanks]
  grind

section Member

variable {k : String} {j : Json} {depth n : Nat} (h : Readable j)
  (hn : 2 * (prettyChars depth j).length ≤ n)
include h hn

theorem readMembers?_last (outer : Nat) (rest : List Char) :
    readValue?.readMembers? (n + 1) (lineBreak depth ++ (quote k ++
      ':' :: ' ' :: (prettyChars depth j ++ (lineBreak outer ++ '}' :: rest)))) =
        some ([(some k, j)], rest) := by
  have hread := h depth n (lineBreak outer ++ '}' :: rest) (delimits_lineBreak _ _) hn
  obtain ⟨cs, hq, hkey⟩ := readString?_quote k
    (':' :: ' ' :: (prettyChars depth j ++ (lineBreak outer ++ '}' :: rest)))
  have hskip : skipBlanks (lineBreak outer ++ '}' :: rest) = '}' :: rest := by
    rw [skipBlanks_lineBreak, skipBlanks_cons (by decide)]
  rw [← readMembers?_skipBlanks, skipBlanks_lineBreak, hq, List.cons_append,
    skipBlanks_cons (by decide), readValue?.readMembers?, skipBlanks_cons (by decide)]
  simp [hkey, skipBlanks_cons, readValue?_blank, hread, hskip]

theorem readMembers?_more (cs : List Char) :
    readValue?.readMembers? (n + 1) (lineBreak depth ++ (quote k ++
      ':' :: ' ' :: (prettyChars depth j ++ ',' :: cs))) =
        (readValue?.readMembers? n cs).map fun (members, rest) => ((some k, j) :: members, rest) := by
  have hread := h depth n (',' :: cs) (delimits_comma _) hn
  obtain ⟨ds, hq, hkey⟩ := readString?_quote k
    (':' :: ' ' :: (prettyChars depth j ++ ',' :: cs))
  rw [← readMembers?_skipBlanks, skipBlanks_lineBreak, hq, List.cons_append,
    skipBlanks_cons (by decide), readValue?.readMembers?, skipBlanks_cons (by decide)]
  simp [hkey, skipBlanks_cons, readValue?_blank, hread, Option.map_eq_bind]

end Member

theorem readMembers?_separate {members : List (Option String × Json)}
    (hk : ∀ m ∈ members, m.1.isSome = true) (h : ∀ m ∈ members, Readable m.2)
    (hne : members ≠ []) (depth n : Nat)
    (hn : 2 * (separate [','] (prettyMembers depth members)).length ≤ n)
    (outer : Nat) (rest : List Char) :
    readValue?.readMembers? n
      (separate [','] (prettyMembers depth members) ++ (lineBreak outer ++ '}' :: rest)) =
        some (members, rest) := by
  induction members generalizing n with
  | nil => exact absurd rfl hne
  | cons m members ih =>
    obtain ⟨k, j⟩ := m
    have hj : Readable j := h _ (List.mem_cons_self ..)
    obtain ⟨k, rfl⟩ := Option.isSome_iff_exists.1 (hk (k, j) (List.mem_cons_self ..))
    cases members with
    | nil =>
      simp only [prettyMembers, separate, quoteText, Option.getD_some, List.length_append,
        List.append_assoc, List.cons_append] at hn ⊢
      obtain ⟨n, rfl⟩ : ∃ k, n = k + 1 := ⟨n - 1, by simp [lineBreak] at hn; omega⟩
      exact readMembers?_last hj (by simp at hn; omega) outer rest
    | cons m members =>
      have hrec := ih (fun m hm => hk m (by simp [hm])) (fun m hm => h m (by simp [hm])) (by simp)
      simp only [prettyMembers, separate, quoteText, Option.getD_some, List.length_append,
        List.append_assoc, List.cons_append] at hn hrec ⊢
      obtain ⟨n, rfl⟩ : ∃ k, n = k + 1 := ⟨n - 1, by simp [lineBreak] at hn; omega⟩
      rw [List.nil_append, readMembers?_more hj (by simp at hn; omega),
        hrec n (by simp at hn ⊢; omega)]
      rfl

theorem readable_object {members : List (Option String × Json)}
    (hk : ∀ m ∈ members, m.1.isSome = true) (h : ∀ m ∈ members, Readable m.2) :
    Readable (.object members) := by
  intro depth n rest _ hn
  obtain ⟨n, rfl⟩ := exists_eq_succ_of_length_le (by simp) hn
  cases members with
  | nil => rfl
  | cons m members =>
    simp only [prettyChars] at hn ⊢
    have hread := readMembers?_separate hk h (by simp) (depth + 1) n (by simp at hn ⊢; omega)
      depth rest
    simp only [List.cons_append, List.append_assoc, List.nil_append]
    rw [readValue?_object _ n, hread]
    · rfl
    intro tail htail
    obtain ⟨a, rfl⟩ : ∃ a, n = a + 1 := ⟨n - 1, by simp at hn; omega⟩
    rw [readValue?.readMembers?, htail] at hread
    exact absurd hread (by simp)

theorem Sound.readable {j : Json} (h : Sound j) : Readable j := by
  induction h with
  | null => exact readable_null
  | bool b => exact readable_bool b
  | number h => exact readable_number h
  | string s => exact readable_string s
  | array _ ih => exact readable_array ih
  | object hk _ ih => exact readable_object hk ih

/-- What is written with line breaks is read as the document it was written from. -/
theorem read?_pretty {j : Json} (h : Sound j) : read? j.pretty = some j := by
  have hread := h.readable 0 (2 * (prettyChars 0 j).length + 2) [] (by simp [Delimits]) (by omega)
  rw [List.append_nil] at hread
  simp [read?, pretty, hread, skipBlanks]

end LinearProgram.Json
