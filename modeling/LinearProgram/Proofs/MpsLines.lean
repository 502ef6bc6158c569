import LinearProgram.Mps.Reader
import LinearProgram.Mps.Writer
import LinearProgram.Proofs.NumeralText

/-! What a reader makes of single written lines, and of one line after another. -/

namespace LinearProgram.Mps

/-- The number that a written one is read as. -/
def clamp (x : Float) : Float :=
  if infinityThreshold ≤ x then Binary64.infinity
  else if x ≤ -infinityThreshold then -Binary64.infinity
  else x

theorem number_text (x : Float) : number (Scalar.text x) = .ok (clamp x) := by
  unfold number clamp
  rw [Decimal.readFloat?_text]
  dsimp only
  split
  · rfl
  · split <;> rfl

theorem ok_bind {ε γ δ : Type} (a : γ) (f : γ → Except ε δ) : (Except.ok a >>= f) = f a :=
  rfl

def wordsOf (line : String) : List String :=
  (Text.words line.toList).map String.ofList

/-- A word as it stands in a line. -/
def IsWord (s : String) : Prop :=
  Text.IsWord s.toList

instance (s : String) : Decidable (IsWord s) :=
  inferInstanceAs (Decidable (Text.IsWord s.toList))

theorem isWord_of_isWritableName {name : String} (h : isWritableName name = true) :
    IsWord name := by
  simp only [isWritableName, Bool.and_eq_true, bne_iff_ne, ne_eq, Bool.not_eq_true',
    List.any_eq_false, Bool.not_eq_true] at h
  exact ⟨fun he => h.1 (String.toList_inj.1 he), h.2⟩

theorem isWord_repr (n : Nat) : IsWord (Nat.repr n) := by
  have hd := Decimal.isDigits_digitChars n
  rw [IsWord, Nat.toList_repr]
  exact ⟨hd.1, fun c hc => Decimal.isBlank_of_isDigit (hd.2 c hc)⟩

theorem isWord_rowName (r : Nat) : IsWord (rowName r) := by
  unfold rowName
  split
  · decide
  · have h := isWord_repr r
    refine ⟨by simp, fun c hc => ?_⟩
    rw [String.toList_append] at hc
    rcases List.mem_append.1 hc with hc | hc
    · obtain rfl : c = 'R' := by simpa using hc
      decide
    · exact h.2 c hc

theorem toList_rowName_succ (r : Nat) :
    (rowName (r + 1)).toList = 'R' :: (Nat.repr (r + 1)).toList := by
  rw [rowName, if_neg (Nat.succ_ne_zero r), String.toList_append]
  rfl

theorem rowName_inj {r t : Nat} (h : rowName r = rowName t) : r = t := by
  cases r with
  | zero =>
    cases t with
    | zero => rfl
    | succ t =>
      have := congrArg String.toList h
      rw [toList_rowName_succ] at this
      exact absurd (List.cons.inj this).1 (by decide)
  | succ r =>
    cases t with
    | zero =>
      have := congrArg String.toList h
      rw [toList_rowName_succ] at this
      exact absurd (List.cons.inj this).1 (by decide)
    | succ t =>
      have := congrArg String.toList h
      rw [toList_rowName_succ, toList_rowName_succ] at this
      exact Decimal.repr_inj (String.toList_inj.1 (List.cons.inj this).2)

theorem words_gap {gap w rest : List Char} (hg : gap.all Text.isBlank = true)
    (hw : Text.IsWord w) (hr : (rest.head?.map Text.isBlank).getD true = true) :
    Text.words (gap ++ (w ++ rest)) = w :: Text.words rest := by
  induction gap with
  | nil => exact Text.words_append hw hr
  | cons c gap ih =>
    obtain ⟨hc, hg⟩ := Bool.and_eq_true_iff.1 hg
    rw [List.cons_append, Text.words_blank hc]
    exact ih hg

theorem words_last {gap w : List Char} (hg : gap.all Text.isBlank = true)
    (hw : Text.IsWord w) : Text.words (gap ++ w) = [w] := by
  have h : Text.words (gap ++ (w ++ [])) = [w] := words_gap hg hw rfl
  rwa [List.append_nil] at h

theorem wordsOf_entryLine {name row value : String} (hn : IsWord name) (hr : IsWord row)
    (hv : IsWord value) : wordsOf (entryLine name row value) = [name, row, value] := by
  simp only [wordsOf, entryLine, String.toList_append, List.append_assoc]
  rw [words_gap (by decide) hn rfl, words_gap (by decide) hr rfl, words_last (by decide) hv]
  simp

theorem head?_entryLine (name row value : String) :
    (entryLine name row value).toList.head? = some ' ' := by
  simp only [entryLine, String.toList_append]
  rfl

theorem wordsOf_rowLine {letter name : String} (hl : IsWord letter) (hn : IsWord name) :
    wordsOf (" " ++ letter ++ "  " ++ name) = [letter, name] := by
  simp only [wordsOf, String.toList_append, List.append_assoc]
  rw [words_gap (by decide) hl rfl, words_last (by decide) hn]
  simp

theorem wordsOf_boundLine {kind name : String} (hk : IsWord kind) (hn : IsWord name) :
    wordsOf (boundLine kind name) = [kind, "BND", name] := by
  simp only [wordsOf, boundLine, String.toList_append, List.append_assoc]
  rw [words_gap (by decide) hk rfl]
  rw [show " BND  ".toList = " ".toList ++ ("BND".toList ++ "  ".toList) from rfl]
  simp only [List.append_assoc]
  rw [words_gap (by decide) (by decide) rfl, words_last (by decide) hn]
  simp

theorem head?_boundLine (kind name : String) :
    (boundLine kind name).toList.head? = some ' ' := by
  simp only [boundLine, String.toList_append]
  rfl

theorem wordsOf_valueLine {kind name : String} (hk : IsWord kind) (hn : IsWord name)
    (value : Float) :
    wordsOf (valueLine kind name value) = [kind, "BND", name, Scalar.text value] := by
  simp only [wordsOf, valueLine, boundLine, String.toList_append, List.append_assoc]
  rw [words_gap (by decide) hk rfl]
  rw [show " BND  ".toList = " ".toList ++ ("BND".toList ++ "  ".toList) from rfl]
  simp only [List.append_assoc]
  rw [words_gap (by decide) (by decide) rfl, words_gap (by decide) hn rfl,
    words_last (by decide) (Decimal.isWord_text value)]
  simp

theorem head?_valueLine (kind name : String) (value : Float) :
    (valueLine kind name value).toList.head? = some ' ' := by
  simp only [valueLine, boundLine, String.toList_append]
  rfl

namespace State

/-- Reading the lines leads from one state to the other. -/
def Reads (s : State) (ls : List String) (s' : State) : Prop :=
  ∀ n rest, s.readLines n (ls.map String.toList ++ rest) = s'.readLines (n + ls.length) rest

theorem Reads.nil (s : State) : s.Reads [] s :=
  fun _ _ => rfl

theorem Reads.line {s s' : State} {l : String} (h : s.readLine l.toList = .ok (.more s')) :
    s.Reads [l] s' := by
  intro n rest
  show s.readLines n (l.toList :: rest) = _
  rw [readLines, h]
  rfl

theorem Reads.append {s s' s'' : State} {ls ls' : List String} (h : s.Reads ls s')
    (h' : s'.Reads ls' s'') : s.Reads (ls ++ ls') s'' := by
  intro n rest
  rw [List.map_append, List.append_assoc, h, h', List.length_append, Nat.add_assoc]

theorem Reads.cons {s s' s'' : State} {l : String} {ls : List String}
    (h : s.readLine l.toList = .ok (.more s')) (h' : s'.Reads ls s'') : s.Reads (l :: ls) s'' :=
  (Reads.line h).append h'

/-- Lines for one thing after another, where those for the next one lead to the next state. -/
theorem Reads.flatMap_zipIdx {γ : Type} (lines : γ → Nat → List String) {S : Nat → State}
    (l : List γ) (start : Nat)
    (h : ∀ k c, l[k]? = some c → (S k).Reads (lines c (start + k)) (S (k + 1))) :
    (S 0).Reads ((l.zipIdx start).flatMap fun c => lines c.1 c.2) (S l.length) := by
  induction l generalizing S start with
  | nil => exact .nil _
  | cons c l ih =>
    rw [List.zipIdx_cons, List.flatMap_cons]
    refine (h 0 c rfl).append (ih (S := fun k => S (k + 1)) (start + 1) fun k d hk => ?_)
    rw [Nat.add_assoc, Nat.add_comm 1]
    exact h (k + 1) d hk

theorem Reads.flatMap {γ : Type} (lines : γ → List String) {S : Nat → State} (l : List γ)
    (h : ∀ k c, l[k]? = some c → (S k).Reads (lines c) (S (k + 1))) :
    (S 0).Reads (l.flatMap lines) (S l.length) := by
  have hz := Reads.flatMap_zipIdx (fun c _ => lines c) l 0 h
  have hf := List.flatMap_map (·.1) lines (l.zipIdx 0)
  rw [List.zipIdx_map_fst] at hf
  rwa [← hf] at hz

theorem readLine_data {s : State} {line word : String} {rest : List String}
    (hw : wordsOf line = word :: rest) (hb : line.toList.head? = some ' ')
    (hs : word.toList.head? ≠ some '*') :
    s.readLine line.toList = Progress.more <$> s.readData (word :: rest) := by
  unfold readLine
  unfold wordsOf at hw
  rw [hw]
  dsimp only
  rw [if_neg hs, hb, if_pos (by decide)]

theorem readLine_section {s : State} {line word : String} {rest : List String}
    (hw : wordsOf line = word :: rest) (hb : (line.toList.head?.map Text.isBlank) = some false)
    (hs : word.toList.head? ≠ some '*') :
    s.readLine line.toList = s.openSection word rest := by
  unfold readLine
  unfold wordsOf at hw
  rw [hw]
  dsimp only
  rw [if_neg hs, hb, if_neg (by decide)]

end State

end LinearProgram.Mps
