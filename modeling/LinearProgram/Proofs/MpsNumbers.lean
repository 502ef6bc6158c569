import LinearProgram.Proofs.GeneratedNames
import LinearProgram.Proofs.MpsBounds
import LinearProgram.Proofs.MpsFaithful

/-! The programs that are read from files of any origin. Their columns have names that are words,
each its own, their terms are on columns that are there, and all their numbers stand in the file. -/

namespace LinearProgram.Mps

def secondWords : List String → List String
  | _ :: word :: rest => word :: secondWords rest
  | _ => []

namespace State

/-- The words of a line of data that stand for numbers. -/
def dataLiterals (s : State) (words : List String) : List String :=
  match s.place with
  | .columns => if isMarker (words.getD 1 "") then [] else secondWords words.tail
  | .rightHandSides => secondWords (if words.length % 2 = 1 then words.tail else words)
  | .bounds => if valueless (capital (words.headD "")) then [] else words.getLast?.toList
  | _ => []

def lineLiterals (s : State) (line : List Char) : List String :=
  match (Text.words line).map String.ofList with
  | [] => []
  | word :: rest =>
    if word.toList.head? = some '*' then []
    else if (line.head?.map Text.isBlank).getD false then s.dataLiterals (word :: rest)
    else []

/-- The words that stand for numbers in the lines up to the end of the program. -/
def literals (s : State) : List (List Char) → List String
  | [] => []
  | line :: rest =>
    s.lineLiterals line ++
      match s.readLine line with
      | .ok (.more s') => s'.literals rest
      | _ => []

end State

/-- The numbers that stand in a file. -/
def numbers (text : String) : List Float :=
  (State.literals {} (Text.lines text.toList)).filterMap Decimal.readFloat?

variable {P : Float → Prop} {p : Problem Float}

theorem yields_number {word : String} (h : ∀ x, Decimal.readFloat? word = some x → P (clamp x)) :
    Yields P (number word) := by
  unfold number
  cases hx : Decimal.readFloat? word with
  | none => exact yields_of_error
  | some x =>
    have hc := h x hx
    unfold clamp at hc
    dsimp only
    split
    · rename_i hl
      rw [if_pos hl] at hc
      exact yields_of_ok hc
    · rename_i hl
      rw [if_neg hl] at hc
      split at hc
      · rename_i hu
        rw [if_pos hu]
        exact yields_of_ok hc
      · rename_i hu
        rw [if_neg hu]
        exact yields_of_ok hc

/-- Terms on the first `n` columns, without zeros, and with coefficients of the kind. -/
def TermsOver (P : Float → Prop) (n : Nat) (ts : Terms Float) : Prop :=
  ∀ t ∈ ts, t.1 < n ∧ (t.2 == 0) = false ∧ P t.2

theorem TermsOver.mono {n k : Nat} {ts : Terms Float} (h : TermsOver P n ts) (hk : n ≤ k) :
    TermsOver P k ts :=
  fun t ht => ⟨Nat.lt_of_lt_of_le (h t ht).1 hk, (h t ht).2⟩

theorem TermsOver.concat {n : Nat} {ts : Terms Float} (h : TermsOver P n ts) {column : Nat}
    {value : Float} (hc : column < n) (hz : (value == 0) = false) (hv : P value) :
    TermsOver P n (ts ++ [(column, value)]) :=
  List.forall_mem_append.2 ⟨h, List.forall_mem_singleton.2 ⟨hc, hz, hv⟩⟩

/-- A program as it is read from a file, where the numbers that stand in it are of the kind. -/
structure Regular (P : Float → Prop) (p : Problem Float) : Prop where
  columns : (p.columns.map (·.name)).Nodup
  isWord : ∀ c ∈ p.columns, IsWord c.name
  no_comment : ∀ c ∈ p.columns, c.name.toList.head? ≠ some '*'
  bounds : ∀ c ∈ p.columns, BoundsOf P c
  rows : (p.constraints.map (·.name)).Nodup
  objective : TermsOver P p.columns.length p.objective.terms
  constraints : ∀ c ∈ p.constraints, TermsOver P p.columns.length c.terms ∧ P c.bound
  config : p.config = {}

theorem Regular.named (h : Regular P p) : Named p :=
  ⟨h.columns, h.isWord, h.no_comment⟩

theorem forall_mem_modify {γ : Type} {Q : γ → Prop} {l : List γ} {i : Nat} {f : γ → γ}
    (h : ∀ a ∈ l, Q a) (hf : ∀ a, Q a → Q (f a)) : ∀ a ∈ l.modify i f, Q a := by
  intro a ha
  obtain ⟨j, hj⟩ := List.mem_iff_getElem?.1 ha
  rw [List.getElem?_modify] at hj
  obtain ⟨b, hb, rfl⟩ := Option.map_eq_some_iff.1 hj
  have hb := h b (List.mem_of_getElem? hb)
  split
  · exact hf b hb
  · exact hb

theorem map_modify_of_eq {γ δ : Type} {f : γ → γ} {g : γ → δ} (h : ∀ a, g (f a) = g a)
    (l : List γ) (i : Nat) : (l.modify i f).map g = l.map g := by
  refine List.ext_getElem? fun j => ?_
  rw [List.getElem?_map, List.getElem?_modify, List.getElem?_map]
  cases l[j]? with
  | none => rfl
  | some a =>
    show some (g (if i = j then f a else a)) = some (g a)
    split
    · rw [h a]
    · rfl

namespace Regular

theorem empty : Regular P {} where
  columns := List.nodup_nil
  isWord := List.forall_mem_nil _
  no_comment := List.forall_mem_nil _
  bounds := List.forall_mem_nil _
  rows := List.nodup_nil
  objective := List.forall_mem_nil _
  constraints := List.forall_mem_nil _
  config := rfl

theorem addRow (h0 : P 0) {s s' : State} (h : Regular P s.problem) {sense : Sense} {name : String}
    (hr : s.addRow sense name = .ok s') : Regular P s'.problem := by
  unfold State.addRow at hr
  split at hr
  · cases hr
  · rename_i hnew
    cases hr
    have hfree : name ∉ s.problem.constraints.map (·.name) := by
      intro hm
      obtain ⟨c, hc, rfl⟩ := List.mem_map.1 hm
      exact hnew (by simpa [State.rowIndex?] using ⟨c, hc, rfl⟩)
    exact { h with
      rows := by
        rw [State.setProblem, List.map_append, List.map_singleton, ← List.concat_eq_append]
        exact h.rows.concat hfree
      constraints := List.forall_mem_append.2
        ⟨h.constraints, List.forall_mem_singleton.2 ⟨List.forall_mem_nil _, h0⟩⟩ }

theorem addColumn (h : Regular P p) {c : Column Float} (hnew : c.name ∉ p.columns.map (·.name))
    (hw : IsWord c.name) (hs : c.name.toList.head? ≠ some '*') (hb : BoundsOf P c) :
    Regular P { p with columns := p.columns ++ [c] } := by
  have hle : p.columns.length ≤ (p.columns ++ [c]).length := by simp
  exact { h with
    columns := by
      rw [List.map_append, List.map_singleton, ← List.concat_eq_append]
      exact h.columns.concat hnew
    isWord := List.forall_mem_append.2 ⟨h.isWord, List.forall_mem_singleton.2 hw⟩
    no_comment := List.forall_mem_append.2 ⟨h.no_comment, List.forall_mem_singleton.2 hs⟩
    bounds := List.forall_mem_append.2 ⟨h.bounds, List.forall_mem_singleton.2 hb⟩
    objective := h.objective.mono hle
    constraints := fun d hd => ⟨(h.constraints d hd).1.mono hle, (h.constraints d hd).2⟩ }

theorem declareColumn (h0 : P 0) {s : State} (h : Regular P s.problem) {name : String}
    (hw : IsWord name) (hs : name.toList.head? ≠ some '*') :
    Regular P (s.declareColumn name).2.problem ∧
      (s.declareColumn name).1 < (s.declareColumn name).2.problem.columns.length := by
  unfold State.declareColumn
  cases hi : s.columnIndex? name with
  | some i => exact ⟨h, (List.findIdx?_eq_some_iff_getElem.1 hi).1⟩
  | none =>
    have hnew : name ∉ s.problem.columns.map (·.name) := State.not_mem_names hi
    have hb : (∀ l ∈ some (0 : Float), P l) ∧ ∀ u ∈ (none : Option Float), P u :=
      ⟨fun _ hl => Option.some.inj hl ▸ h0, nofun⟩
    refine ⟨?_, by simp [State.setProblem]⟩
    cases s.integerBlock with
    | true => exact h.addColumn (c := .integer name) hnew hw hs hb
    | false => exact h.addColumn (c := .continuous name) hnew hw hs hb

theorem modifyConstraint (h : Regular P p) (i : Nat) {f : Constraint Float → Constraint Float}
    (hn : ∀ c, (f c).name = c.name)
    (hf : ∀ c, TermsOver P p.columns.length c.terms ∧ P c.bound →
      TermsOver P p.columns.length (f c).terms ∧ P (f c).bound) :
    Regular P { p with constraints := p.constraints.modify i f } :=
  { h with
    rows := by
      rw [map_modify_of_eq hn]
      exact h.rows
    constraints := forall_mem_modify h.constraints hf }

theorem modifyColumn (h : Regular P p) {i : Nat} {c d : Column Float} (hi : p.columns[i]? = some c)
    (hn : d.name = c.name) (hb : BoundsOf P d) :
    Regular P { p with columns := p.columns.modify i fun _ => d } := by
  have hc := List.mem_of_getElem? hi
  have hlen : (p.columns.modify i fun _ => d).length = p.columns.length := List.length_modify ..
  exact { h with
    columns := by
      rw [← List.set_eq_modify, names_set hi hn]
      exact h.columns
    isWord := forall_mem_modify h.isWord fun _ _ => hn ▸ h.isWord c hc
    no_comment := forall_mem_modify h.no_comment fun _ _ => hn ▸ h.no_comment c hc
    bounds := forall_mem_modify h.bounds fun _ _ => hb
    objective := h.objective.mono hlen.ge
    constraints := fun e he => ⟨(h.constraints e he).1.mono hlen.ge, (h.constraints e he).2⟩ }

variable {s s' : State}

theorem addEntry (h : Regular P s.problem) {column : Nat} {row : String} {value : Float}
    (hc : column < s.problem.columns.length) (hv : P value)
    (hr : s.addEntry column row value = .ok s') : Regular P s'.problem := by
  obtain ⟨target, -, hr⟩ := exists_of_bind_eq_ok hr
  split at hr
  · cases hr
    exact h
  · rename_i hz
    have hz : (value == 0) = false := by simpa using hz
    cases target with
    | objective =>
      cases hr
      exact { h with objective := h.objective.concat hc hz hv }
    | constraint i =>
      cases hr
      exact h.modifyConstraint i (fun _ => rfl) fun c hterms => ⟨hterms.1.concat hc hz hv, hterms.2⟩
    | nothing =>
      cases hr
      exact h

theorem addEntries (h : Regular P s.problem) {column : Nat} {words : List String}
    (hc : column < s.problem.columns.length)
    (hl : ∀ w ∈ secondWords words, Yields P (number w))
    (hr : s.addEntries column words = .ok s') : Regular P s'.problem := by
  induction words using List.twoStepInduction generalizing s with
  | nil =>
    cases hr
    exact h
  | singleton =>
    cases hr
    exact h
  | cons_cons row word rest ih _ =>
    obtain ⟨hword, hl⟩ := List.forall_mem_cons.1 hl
    obtain ⟨value, hvalue, hr⟩ := exists_of_bind_eq_ok hr
    obtain ⟨s₁, h₁, hr⟩ := exists_of_bind_eq_ok hr
    have hlen : s₁.problem.columns.length = s.problem.columns.length := by
      rw [State.columns_addEntry h₁]
    exact ih (h.addEntry hc (hword value hvalue) h₁) (hlen ▸ hc) hl hr

theorem setBound (h : Regular P s.problem) {row : String} {value : Float} (hv : P value)
    (hr : s.setBound row value = .ok s') : Regular P s'.problem := by
  obtain ⟨target, -, hr⟩ := exists_of_bind_eq_ok hr
  cases target with
  | constraint i =>
    cases hr
    exact h.modifyConstraint i (fun _ => rfl) fun c hterms => ⟨hterms.1, hv⟩
  | objective | nothing =>
    cases hr
    exact h

theorem setBounds (h : Regular P s.problem) {words : List String}
    (hl : ∀ w ∈ secondWords words, Yields P (number w)) (hr : s.setBounds words = .ok s') :
    Regular P s'.problem := by
  induction words using List.twoStepInduction generalizing s with
  | nil =>
    cases hr
    exact h
  | singleton =>
    cases hr
    exact h
  | cons_cons row word rest ih _ =>
    obtain ⟨hword, hl⟩ := List.forall_mem_cons.1 hl
    obtain ⟨value, hvalue, hr⟩ := exists_of_bind_eq_ok hr
    obtain ⟨s₁, h₁, hr⟩ := exists_of_bind_eq_ok hr
    exact ih (h.setBound (hword value hvalue) h₁) hl hr

theorem readRow (h0 : P 0) (h : Regular P s.problem) {words : List String}
    (hr : s.readRow words = .ok s') : Regular P s'.problem := by
  unfold State.readRow at hr
  split at hr
  · split at hr
    · cases hr
      unfold State.addFreeRow
      split <;> exact h
    · exact h.addRow h0 hr
    · exact h.addRow h0 hr
    · exact h.addRow h0 hr
    · cases hr
  · cases hr

theorem readColumn (h0 : P 0) (h : Regular P s.problem) (hp : s.place = .columns) {word : String}
    {rest : List String} (hw : IsWord word) (hs : word.toList.head? ≠ some '*')
    (hl : ∀ w ∈ s.dataLiterals (word :: rest), Yields P (number w))
    (hr : s.readColumn (word :: rest) = .ok s') : Regular P s'.problem := by
  rw [State.dataLiterals, hp] at hl
  unfold State.readColumn at hr
  split at hr
  · rename_i name second third rest he
    obtain ⟨rfl, rfl⟩ := List.cons.inj he
    rw [List.getD_cons_succ, List.getD_cons_zero, List.tail_cons] at hl
    split at hr
    · unfold State.readMarker at hr
      split at hr <;> cases hr <;> exact h
    · rename_i hmarker
      rw [if_neg hmarker] at hl
      split at hr
      · cases hr
      · obtain ⟨hd, hi⟩ := h.declareColumn h0 hw hs
        exact hd.addEntries hi hl hr
  · cases hr

theorem readRightHandSides (h : Regular P s.problem) (hp : s.place = .rightHandSides)
    {words : List String} (hl : ∀ w ∈ s.dataLiterals words, Yields P (number w))
    (hr : s.readRightHandSides words = .ok s') : Regular P s'.problem := by
  rw [State.dataLiterals, hp] at hl
  unfold State.readRightHandSides at hr
  dsimp only at hl hr
  generalize (if words.length % 2 = 1 then words.tail else words) = pairs at hl hr
  split at hr
  · cases hr
  · exact h.setBounds hl hr

end Regular

theorem of_boundOperands (h0 : P 0) {kind : String} {words : List String} {name : String}
    {value : Float}
    (hl : ∀ w ∈ (if valueless kind then [] else words.getLast?.toList), Yields P (number w))
    (hr : boundOperands kind words = .ok (name, value)) : P value := by
  have hlast (word column : String) (hv : ¬ valueless kind = true)
      (hw : words.getLast? = some word)
      (hr : (number word).map (fun x => (column, x)) = .ok (name, value)) : P value := by
    rw [if_neg hv, hw] at hl
    obtain ⟨x, hx, he⟩ := exists_of_map_eq_ok hr
    obtain ⟨-, rfl⟩ := Prod.mk.inj he
    exact hl word (List.mem_singleton_self word) x hx
  unfold boundOperands at hr
  split at hr
  · split at hr
    · cases hr
      exact h0
    · cases hr
  · split at hr
    · cases hr
      exact h0
    · exact hlast _ _ ‹_› rfl hr
  · split at hr
    · cases hr
      exact h0
    · exact hlast _ _ ‹_› rfl hr
  · cases hr

namespace Regular

variable {s s' : State}

theorem readBound (h0 : P 0) (h1 : P 1) (h : Regular P s.problem) (hp : s.place = .bounds)
    {words : List String} (hl : ∀ w ∈ s.dataLiterals words, Yields P (number w))
    (hr : s.readBound words = .ok s') : Regular P s'.problem := by
  rw [State.dataLiterals, hp] at hl
  obtain ⟨name, value, i, c, d, ho, -, hi, hd, rfl⟩ := State.exists_applyBound_of_readBound hr
  have hv : P value := of_boundOperands h0 hl ho
  have hc : BoundsOf P c := h.bounds c (List.mem_of_getElem? hi)
  obtain ⟨b, -, hb, rfl⟩ := StatedBound.exists_of_applyBound ho hd
  exact h.modifyColumn hi rfl (StatedBound.boundsOf_impose h0 h1 hc fun x hx => hb x hx ▸ hv)

theorem readData (h0 : P 0) (h1 : P 1) (h : Regular P s.problem) {word : String}
    {rest : List String} (hw : IsWord word) (hs : word.toList.head? ≠ some '*')
    (hl : ∀ w ∈ s.dataLiterals (word :: rest), Yields P (number w))
    (hr : s.readData (word :: rest) = .ok s') : Regular P s'.problem := by
  unfold State.readData at hr
  split at hr
  · obtain ⟨d, -, rfl⟩ := exists_of_map_eq_ok hr
    exact { h with }
  · exact h.readRow h0 hr
  · exact h.readColumn h0 ‹_› hw hs hl hr
  · exact h.readRightHandSides ‹_› hl hr
  · exact h.readBound h0 h1 ‹_› hl hr
  all_goals cases hr

theorem openSection (h : Regular P s.problem) {word : String} {rest : List String}
    (hr : s.openSection word rest = .ok (.more s')) : Regular P s'.problem := by
  unfold State.openSection at hr
  split at hr
  · cases hr
    exact { h with }
  · dsimp only at hr
    split at hr
    · obtain ⟨s₁, h₁, hr⟩ := exists_of_bind_eq_ok hr
      obtain ⟨d, -, rfl⟩ := exists_of_map_eq_ok h₁
      cases hr
      exact { h with }
    · cases hr
      exact h
  all_goals cases hr
  all_goals exact h

theorem readLine (h0 : P 0) (h1 : P 1) (h : Regular P s.problem) {line : List Char}
    (hl : ∀ w ∈ s.lineLiterals line, Yields P (number w))
    (hr : s.readLine line = .ok (.more s')) : Regular P s'.problem := by
  unfold State.lineLiterals at hl
  unfold State.readLine at hr
  split at hr
  · cases hr
    exact h
  · rename_i word rest hwords
    have hw : IsWord word := by
      have hm : word ∈ (Text.words line).map String.ofList := hwords ▸ List.mem_cons_self
      obtain ⟨cs, hcs, rfl⟩ := List.mem_map.1 hm
      rw [IsWord, String.toList_ofList]
      exact Text.mem_words hcs
    rw [hwords] at hl
    dsimp only at hl
    split at hr
    · cases hr
      exact h
    · rename_i hcomment
      rw [if_neg hcomment] at hl
      split at hr
      · rename_i hindented
        rw [if_pos hindented] at hl
        obtain ⟨s₁, h₁, hr⟩ := exists_of_map_eq_ok hr
        cases hr
        exact h.readData h0 h1 hw hcomment hl h₁
      · exact h.openSection hr

theorem readLines (h0 : P 0) (h1 : P 1) (h : Regular P s.problem) {n : Nat}
    {lines : List (List Char)} (hl : ∀ w ∈ s.literals lines, Yields P (number w))
    (hr : s.readLines n lines = .ok p) : Regular P p := by
  induction lines generalizing s n with
  | nil => cases hr
  | cons line rest ih =>
    rw [State.literals, List.forall_mem_append] at hl
    rw [State.readLines] at hr
    split at hr
    · cases hr
    · rename_i hline
      cases hr
      exact State.eq_of_readLine_done hline ▸ h
    · rename_i s₁ hline
      rw [hline] at hl
      exact ih (h.readLine h0 h1 hl.1 hline) hl.2 hr

end Regular

/-- Whatever file a program is read from, it is regular, and its numbers are among those that the
file states. -/
theorem regular_of_read (h0 : P 0) (h1 : P 1) {text : String}
    (hn : ∀ x ∈ numbers text, P (clamp x)) (hr : read text = .ok p) : Regular P p := by
  refine Regular.empty.readLines (s := {}) h0 h1 (fun w hw => yields_number fun x hx => ?_) hr
  exact hn x (List.mem_filterMap.2 ⟨w, hw, hx⟩)

theorem regular_of_ordinary {text : String} (hn : ∀ x ∈ numbers text, Ordinary x)
    (hr : read text = .ok p) : Regular Ordinary p := by
  have hzero : Ordinary 0 := by decide +kernel
  have hone : Ordinary 1 := by decide +kernel
  refine regular_of_read hzero hone (fun x hx => ?_) hr
  rw [(hn x hx).clamp_eq]
  exact hn x hx

end LinearProgram.Mps
