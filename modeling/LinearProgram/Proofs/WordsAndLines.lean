import LinearProgram.Text.Blank
import Mathlib.Data.List.DropRight

/-! Taking apart a text that was put together from words and lines. -/

namespace LinearProgram.Text

/-- One unbroken run of other characters. -/
def IsWord (w : List Char) : Prop :=
  w ≠ [] ∧ ∀ c ∈ w, isBlank c = false

theorem isWord_iff {w : List Char} : IsWord w ↔ (w != [] && !w.any isBlank) = true := by
  simp [IsWord]

instance (w : List Char) : Decidable (IsWord w) :=
  decidable_of_iff _ isWord_iff.symm

theorem words_blank {c : Char} (hc : isBlank c = true) (cs : List Char) :
    words (c :: cs) = words cs := by
  rw [words, if_pos hc]

/-- A word ends where the text does, or at a blank. -/
theorem words_append {w cs : List Char} (hw : IsWord w)
    (hcs : (cs.head?.map isBlank).getD true = true) : words (w ++ cs) = w :: words cs := by
  obtain ⟨hne, hw⟩ := hw
  induction w with
  | nil => exact absurd rfl hne
  | cons c w ih =>
    have hc : ¬ isBlank c = true := by simp [hw c List.mem_cons_self]
    cases w with
    | nil => simp [words, hc, hcs]
    | cons d w =>
      have hd : isBlank d = false := hw d (List.mem_cons_of_mem _ List.mem_cons_self)
      have ih := ih (List.cons_ne_nil d w) fun x hx => hw x (List.mem_cons_of_mem _ hx)
      rw [List.cons_append, words, if_neg hc, ih]
      simp [hd]

theorem words_of_all_blank {cs : List Char} (h : ∀ c ∈ cs, isBlank c = true) : words cs = [] := by
  induction cs with
  | nil => rfl
  | cons c cs ih =>
    obtain ⟨hc, hcs⟩ := List.forall_mem_cons.1 h
    rw [words_blank hc, ih hcs]

theorem words_dropWhile (cs : List Char) : words (cs.dropWhile isBlank) = words cs := by
  induction cs with
  | nil => rfl
  | cons c cs ih =>
    by_cases hc : isBlank c = true
    · rw [List.dropWhile_cons_of_pos hc, ih, words_blank hc]
    · rw [List.dropWhile_cons_of_neg hc]

theorem words_append_blank (cs : List Char) {bs : List Char} (hb : ∀ b ∈ bs, isBlank b = true) :
    words (cs ++ bs) = words cs := by
  have hhead : (bs.head?.map isBlank).getD true = true := by
    cases bs with
    | nil => rfl
    | cons b bs => exact hb b List.mem_cons_self
  induction cs with
  | nil => exact words_of_all_blank hb
  | cons c cs ih =>
    cases cs with
    | nil => simp [words, hhead, words_of_all_blank hb]
    | cons d cs =>
      rw [List.cons_append, words, ih]
      rfl

/-- Trimming leaves nothing but blanks behind. -/
theorem exists_trim_append (cs : List Char) :
    ∃ bs, (∀ b ∈ bs, isBlank b = true) ∧ cs.dropWhile isBlank = trim cs ++ bs :=
  ⟨(cs.dropWhile isBlank).rtakeWhile isBlank, fun _ hb => List.mem_rtakeWhile_imp hb,
    (List.rdropWhile_append_rtakeWhile ..).symm⟩

theorem words_trim (cs : List Char) : words (trim cs) = words cs := by
  obtain ⟨bs, hb, hcs⟩ := exists_trim_append cs
  rw [← words_dropWhile cs, hcs, words_append_blank _ hb]

theorem not_blank_of_trim_eq_cons {cs rest : List Char} {c : Char} (h : trim cs = c :: rest) :
    isBlank c = false := by
  obtain ⟨bs, -, hcs⟩ := exists_trim_append cs
  have hhead := List.head?_dropWhile_not isBlank cs
  rw [hcs, h] at hhead
  simpa using hhead

theorem words_cons {c : Char} (hc : isBlank c = false) (cs : List Char) :
    ∃ w ws, words (c :: cs) = (c :: w) :: ws := by
  have hc : ¬ isBlank c = true := by simp [hc]
  rw [words, if_neg hc]
  dsimp only
  split
  · exact ⟨[], _, rfl⟩
  · split
    · exact ⟨[], [], rfl⟩
    · exact ⟨_, _, rfl⟩

theorem IsWord.newline_not_mem {w : List Char} (hw : IsWord w) : '\n' ∉ w := by
  intro h
  have := hw.2 _ h
  simp [isBlank] at this

theorem lines_append {l : List Char} (hl : '\n' ∉ l) (cs : List Char) :
    lines (l ++ '\n' :: cs) = l :: lines cs := by
  induction l with
  | nil => simp [lines]
  | cons c l ih =>
    obtain ⟨hc, hl⟩ := List.ne_and_not_mem_of_not_mem_cons hl
    simp [lines, Ne.symm hc, ih hl]

/-- A text of ended lines has these lines. -/
theorem lines_flatMap (ls : List (List Char)) (h : ∀ l ∈ ls, '\n' ∉ l) :
    lines (ls.flatMap (· ++ ['\n'])) = ls := by
  induction ls with
  | nil => rfl
  | cons l ls ih =>
    rw [List.flatMap_cons, List.append_assoc, List.singleton_append,
      lines_append (h l List.mem_cons_self), ih fun l' h' => h l' (List.mem_cons_of_mem _ h')]

end LinearProgram.Text
