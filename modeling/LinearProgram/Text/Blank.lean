/-! White space, and what it separates: words within a line, and lines within a text. -/

namespace LinearProgram.Text

/-- The characters with the Unicode property White_Space. -/
def isBlank (c : Char) : Bool :=
  let n := c.toNat
  (0x9 ≤ n && n ≤ 0xD) || n == 0x20 || n == 0x85 || n == 0xA0 || n == 0x1680 ||
    (0x2000 ≤ n && n ≤ 0x200A) || n == 0x2028 || n == 0x2029 || n == 0x202F || n == 0x205F ||
    n == 0x3000

/-- Drops what `p` holds of from both ends. -/
def trimBy (p : Char → Bool) (cs : List Char) : List Char :=
  ((cs.dropWhile p).reverse.dropWhile p).reverse

def trim (cs : List Char) : List Char :=
  trimBy isBlank cs

/-- The maximal runs of other characters. -/
def words : List Char → List (List Char)
  | [] => []
  | c :: cs =>
    if isBlank c then words cs
    else
      let rest := words cs
      if (cs.head?.map isBlank).getD true then [c] :: rest
      else match rest with
        | [] => [[c]]
        | w :: ws => (c :: w) :: ws

theorem mem_words {cs w : List Char} (h : w ∈ words cs) :
    w ≠ [] ∧ ∀ c ∈ w, isBlank c = false := by
  induction cs generalizing w with
  | nil => simp [words] at h
  | cons c cs ih =>
    simp only [words] at h
    split at h
    · exact ih h
    · rename_i hc
      have hc : isBlank c = false := by simpa using hc
      split at h
      · rcases List.mem_cons.1 h with rfl | h
        · simpa using hc
        · exact ih h
      · cases hr : words cs with
        | nil => simp_all
        | cons v vs =>
          rw [hr] at h ih
          rcases List.mem_cons.1 h with rfl | h
          · refine ⟨by simp, fun d hd => ?_⟩
            rcases List.mem_cons.1 hd with rfl | hd
            · exact hc
            · exact (ih List.mem_cons_self).2 d hd
          · exact ih (List.mem_cons_of_mem _ h)

/-- A line feed ends a line, and a last line may do without one. A carriage return before it is
white space at the end of its line. -/
def lines : List Char → List (List Char)
  | [] => []
  | c :: cs =>
    if c = '\n' then [] :: lines cs
    else match lines cs with
      | [] => [[c]]
      | l :: ls => (c :: l) :: ls

end LinearProgram.Text
