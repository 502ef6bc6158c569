import LinearProgram.Proofs.DirectiveLog

/-! The grammar of what a backend is told: blocks for a column with its name and its domain, for a
row, for an objective. Only a refusal cuts a block short, and after solving nothing follows. -/

namespace LinearProgram

variable {α : Type}

/-- Column numbers rise, no coefficient is zero, and only the first `n` columns are there. -/
def Shaped [Scalar α] (n : Nat) (ts : List (Term α)) : Prop :=
  Increasing ts ∧ ∀ t ∈ ts, (t.2 == 0) = false ∧ 0 < t.1.number ∧ t.1.number ≤ n

/-- One block, with the numbers of columns before and after it. -/
inductive Block [Scalar α] : Nat → List (LogEntry α) → Nat → Prop
  | column {n : Nat} (name : String) {kind : List (LogEntry α)} {range : LogEntry α}
      (hkind : kind = [] ∨ kind = [.sent (.setInteger ⟨n + 1⟩ true)])
      (hrange : range = .sent (.setBinary ⟨n + 1⟩) ∨
        ∃ lower upper, range = .sent (.setBounds ⟨n + 1⟩ lower upper)) :
      Block n (.sent .addColumn :: .sent (.setColumnName ⟨n + 1⟩ name) :: (kind ++ [range])) (n + 1)
  | row {n : Nat} {ts : List (Term α)} (sense : Sense) (bound : α) (h : Shaped n ts) :
      Block n [.sent (.addRow ts sense bound)] n
  | objective {n : Nat} {ts : List (Term α)} (h : Shaped n ts) :
      Block n [.setMaximize, .sent (.setObjective ts)] n

inductive Blocks [Scalar α] (n₀ : Nat) : List (LogEntry α) → Nat → Prop
  | nil : Blocks n₀ [] n₀
  | append {l b : List (LogEntry α)} {k n : Nat} (init : Blocks n₀ l k) (last : Block k b n) :
      Blocks n₀ (l ++ b) n

def accepted (l : List (LogEntry α)) : List (LogLine α) :=
  l.map (·, true)

/-- What a backend may have been told from `n₀` columns on. -/
inductive Conforms [Scalar α] (n₀ : Nat) : List (LogLine α) → Prop
  | whole {l : List (LogEntry α)} {n : Nat} (h : Blocks n₀ l n) : Conforms n₀ (accepted l)
  | cut {l pre post : List (LogEntry α)} {d : LogEntry α} {n k : Nat} (h : Blocks n₀ l n)
      (hb : Block n (pre ++ d :: post) k) : Conforms n₀ (accepted (l ++ pre) ++ [(d, false)])
  | solved {l : List (LogEntry α)} {n : Nat} (h : Blocks n₀ l n) (ok : Bool) :
      Conforms n₀ (accepted l ++ [(.solve, ok)])

/-- Loads and saves stand apart from the directives that change a program. -/
def LogEntry.mutates : LogEntry α → Bool
  | sent _ | setMaximize | solve => true
  | saveModel | loadModel => false

def mutating (log : List (LogLine α)) : List (LogLine α) :=
  log.filter fun l => l.1.mutates

/-- The column whose bounds are installed. -/
def LogEntry.bounded? : LogEntry α → Option ColumnId
  | sent (.setBinary c) | sent (.setBounds c ..) => some c
  | _ => none

def LogEntry.integer? : LogEntry α → Option ColumnId
  | sent (.setInteger c _) => some c
  | _ => none

section Blocks

variable [Scalar α] {n₀ n k : Nat} {l l' b pre post : List (LogEntry α)} {d : LogEntry α}

theorem Blocks.trans (h : Blocks n₀ l n) (h' : Blocks n l' k) : Blocks n₀ (l ++ l') k := by
  induction h' with
  | nil => rwa [List.append_nil]
  | append _ last ih =>
    rw [← List.append_assoc]
    exact ih.append last

theorem Block.blocks (h : Block n b k) : Blocks n b k :=
  Blocks.nil.append h

theorem Blocks.exists_block (h : Blocks n₀ (pre ++ d :: post) n) :
    ∃ l pre' post' l' i j, pre = l ++ pre' ∧ post = post' ++ l' ∧ Blocks n₀ l i ∧
      Block i (pre' ++ d :: post') j ∧ Blocks j l' n := by
  generalize hl : pre ++ d :: post = l at h
  induction h generalizing post with
  | nil => simp at hl
  | @append l b k n init last ih =>
    -- the directive is in the last block, or in the blocks before it
    rcases List.append_eq_append_iff.1 hl with ⟨as, rfl, hb⟩ | ⟨as, rfl, hb⟩
    · cases as with
      | nil => exact ⟨_, [], post, [], k, n, by simp, by simp, init, by simpa using hb ▸ last, .nil⟩
      | cons e as =>
        obtain ⟨rfl, rfl⟩ := List.cons.inj hb
        obtain ⟨l₁, pre', post', l', i, j, hpre, rfl, h₁, hblock, hl'⟩ := ih rfl
        exact ⟨l₁, pre', post', l' ++ b, i, j, hpre, by simp, h₁, hblock, hl'.append last⟩
    · exact ⟨l, as, post, [], k, n, rfl, by simp, init, hb ▸ last, .nil⟩

theorem Blocks.cut (h : Blocks n₀ (pre ++ d :: post) n) :
    Conforms n₀ (accepted pre ++ [(d, false)]) := by
  obtain ⟨l, pre', post', l', i, j, rfl, -, hl, hb, -⟩ := h.exists_block
  exact .cut hl hb

theorem Block.mutates (h : Block n b k) : ∀ e ∈ b, e.mutates = true := by
  cases h with
  | column name hkind hrange =>
    rcases hkind with rfl | rfl <;> rcases hrange with rfl | ⟨_, _, rfl⟩ <;> simp [LogEntry.mutates]
  | row sense bound h => simp [LogEntry.mutates]
  | objective h => simp [LogEntry.mutates]

theorem Blocks.mutates (h : Blocks n₀ l n) : ∀ e ∈ l, e.mutates = true := by
  induction h with
  | nil => exact List.forall_mem_nil _
  | append _ last ih => exact List.forall_mem_append.2 ⟨ih, last.mutates⟩

end Blocks

section Installs

variable [Scalar α] {n₀ n k : Nat} {l b pre post : List (LogEntry α)} {c : ColumnId}

def installs (f : LogEntry α → Option ColumnId) (c : ColumnId) (l : List (LogEntry α)) : Nat :=
  l.countP fun e => f e = some c

omit [Scalar α] in
theorem installs_append (f : LogEntry α → Option ColumnId) (c : ColumnId)
    (l l' : List (LogEntry α)) : installs f c (l ++ l') = installs f c l + installs f c l' :=
  List.countP_append

theorem Block.le (h : Block n b k) : n ≤ k := by
  cases h <;> omega

theorem Blocks.le (h : Blocks n₀ l n) : n₀ ≤ n := by
  induction h with
  | nil => exact Nat.le_refl _
  | append _ last ih => exact Nat.le_trans ih last.le

theorem Block.installs (h : Block n b k) :
    installs LogEntry.bounded? c b = (if n < c.number ∧ c.number ≤ k then 1 else 0) ∧
      installs LogEntry.integer? c b ≤ if n < c.number ∧ c.number ≤ k then 1 else 0 := by
  cases h with
  | column name hkind hrange =>
    have hc : (⟨n + 1⟩ : ColumnId) = c ↔ n < c.number ∧ c.number ≤ n + 1 := by
      constructor
      · rintro rfl
        exact ⟨Nat.lt_succ_self n, Nat.le_refl _⟩
      · intro h
        obtain ⟨i⟩ := c
        have : n + 1 = i := by
          simp only at h
          omega
        rw [this]
    by_cases h : (⟨n + 1⟩ : ColumnId) = c
    · rw [if_pos (hc.1 h)]
      rcases hkind with rfl | rfl <;> rcases hrange with rfl | ⟨_, _, rfl⟩ <;>
        simp [LinearProgram.installs, LogEntry.bounded?, LogEntry.integer?, h]
    · rw [if_neg (mt hc.2 h)]
      rcases hkind with rfl | rfl <;> rcases hrange with rfl | ⟨_, _, rfl⟩ <;>
        simp [LinearProgram.installs, LogEntry.bounded?, LogEntry.integer?, h]
  | row sense bound h =>
    rw [if_neg (by omega)]
    exact ⟨rfl, Nat.le_refl _⟩
  | objective h =>
    rw [if_neg (by omega)]
    exact ⟨rfl, Nat.le_refl _⟩

/-- Each column has its bounds installed just once, and its integrality at most once. -/
theorem Blocks.installs (h : Blocks n₀ l n) :
    installs LogEntry.bounded? c l = (if n₀ < c.number ∧ c.number ≤ n then 1 else 0) ∧
      installs LogEntry.integer? c l ≤ if n₀ < c.number ∧ c.number ≤ n then 1 else 0 := by
  induction h with
  | nil =>
    rw [if_neg (by omega)]
    exact ⟨rfl, Nat.le_refl _⟩
  | @append l b k n init last ih =>
    have hk := init.le
    have hn := last.le
    obtain ⟨hb, hi⟩ := last.installs (c := c)
    rw [installs_append, installs_append, ih.1, hb]
    have hadd : (if n₀ < c.number ∧ c.number ≤ n then 1 else 0) =
        (if n₀ < c.number ∧ c.number ≤ k then 1 else 0) +
          if k < c.number ∧ c.number ≤ n then 1 else 0 := by
      grind
    exact ⟨hadd.symm, hadd ▸ Nat.add_le_add ih.2 hi⟩

theorem Blocks.ne_solve (h : Blocks n₀ l n) : .solve ∉ l := by
  induction h with
  | nil => exact List.not_mem_nil
  | append _ last ih =>
    refine fun hmem => (List.mem_append.1 hmem).elim ih ?_
    cases last with
    | column name hkind hrange =>
      rcases hkind with rfl | rfl <;> rcases hrange with rfl | ⟨_, _, rfl⟩ <;> simp
    | row sense bound h => simp
    | objective h => simp

theorem Block.of_row {ts : List (Term α)} {sense : Sense} {bound : α}
    (h : Block n (pre ++ .sent (.addRow ts sense bound) :: post) k) :
    (pre = [] ∧ post = []) ∧ n = k ∧ Shaped n ts := by
  generalize hb : pre ++ LogEntry.sent (.addRow ts sense bound) :: post = b at h
  have hmem : LogEntry.sent (.addRow ts sense bound) ∈ b := hb ▸ by simp
  cases h with
  | column name hkind hrange =>
    rcases hkind with rfl | rfl <;> rcases hrange with rfl | ⟨_, _, rfl⟩ <;> simp at hmem
  | objective h => simp at hmem
  | row sense bound h =>
    cases pre with
    | nil =>
      cases hb
      exact ⟨⟨rfl, rfl⟩, rfl, h⟩
    | cons e pre => simp at hb

/-- Cut short or not, what has been told begins a sequence of blocks, up to a final `solve`. -/
theorem Conforms.exists_blocks {log : List (LogLine α)} (h : Conforms n₀ log) :
    ∃ l n, Blocks n₀ l n ∧
      ((∃ rest, log.map Prod.fst ++ rest = l) ∨ log.map Prod.fst = l ++ [.solve]) := by
  cases h with
  | @whole l n h => exact ⟨l, n, h, .inl ⟨[], by simp [accepted, Function.comp_def]⟩⟩
  | @cut l pre post d n k h hb =>
    exact ⟨_, k, h.append hb, .inl ⟨post, by simp [accepted, Function.comp_def]⟩⟩
  | @solved l n h ok => exact ⟨l, n, h, .inr (by simp [accepted, Function.comp_def])⟩

theorem Conforms.eq_nil_of_solve {pre post : List (LogLine α)} {ok : Bool}
    (h : Conforms n₀ (pre ++ (.solve, ok) :: post)) : post = [] := by
  obtain ⟨l, n, hl, ⟨rest, he⟩ | he⟩ := h.exists_blocks
  · exact (hl.ne_solve (by simp [← he])).elim
  · rw [List.map_append, List.map_cons] at he
    rcases List.append_eq_append_iff.1 he with ⟨as, rfl, ha⟩ | ⟨as, -, ha⟩
    · cases as with
      | nil => simpa using ha
      | cons e as =>
        obtain ⟨rfl, -⟩ := List.cons.inj ha
        exact (hl.ne_solve (by simp)).elim
    · cases as with
      | nil => simpa using ha
      | cons e as => simp at ha

theorem Conforms.exists_of_row {pre post : List (LogLine α)} {ts : List (Term α)} {sense : Sense}
    {bound : α} {ok : Bool}
    (h : Conforms n₀ (pre ++ (.sent (.addRow ts sense bound), ok) :: post)) :
    ∃ q n, Blocks n₀ (pre.map Prod.fst ++ .sent (.addRow ts sense bound) :: q) n ∧
      ∀ f : LogEntry α → Option ColumnId, f .solve = none →
        ∀ c, installs f c (post.map Prod.fst) ≤ installs f c q := by
  -- a block cut short is completed, so that only whole blocks have to be counted
  obtain ⟨l, n, hl, ⟨rest, he⟩ | he⟩ := h.exists_blocks
  · refine ⟨post.map Prod.fst ++ rest, n, by simpa [← he] using hl, fun f _ c => ?_⟩
    rw [installs_append]
    exact Nat.le_add_right _ _
  · rw [List.map_append, List.map_cons] at he
    rcases List.append_eq_append_iff.1 he with ⟨as, rfl, ha⟩ | ⟨as, -, ha⟩
    · cases as with
      | nil => simp at ha
      | cons e as =>
        obtain ⟨rfl, hpost⟩ := List.cons.inj ha
        refine ⟨as, n, hl, fun f hf c => ?_⟩
        simp [hpost, installs, hf]
    · cases as with
      | nil => simp at ha
      | cons e as => simp at ha

/-- What a row mentions of the columns after the first `n₀` has been installed before it, once, and
is not installed again. -/
theorem Conforms.installs_of_row {pre post : List (LogLine α)} {ts : List (Term α)} {sense : Sense}
    {bound : α} {ok : Bool} (h : Conforms n₀ (pre ++ (.sent (.addRow ts sense bound), ok) :: post))
    {t : Term α} (ht : t ∈ ts) (hn : n₀ < t.1.number) :
    installs LogEntry.bounded? t.1 (pre.map Prod.fst) = 1 ∧
      installs LogEntry.integer? t.1 (pre.map Prod.fst) ≤ 1 ∧
      installs LogEntry.bounded? t.1 (post.map Prod.fst) = 0 ∧
      installs LogEntry.integer? t.1 (post.map Prod.fst) = 0 := by
  obtain ⟨q, n, hq, hpost⟩ := h.exists_of_row
  obtain ⟨l, pre', post', l', i, j, hpre, hsuf, hl, hb, hl'⟩ := hq.exists_block
  obtain ⟨⟨rfl, rfl⟩, rfl, hshape⟩ := hb.of_row
  rw [List.append_nil] at hpre
  obtain rfl : q = l' := hsuf
  have hle := (hshape.2 t ht).2.2
  obtain ⟨hbefore, hint⟩ := hl.installs (c := t.1)
  obtain ⟨hafter, hint'⟩ := hl'.installs (c := t.1)
  rw [if_pos ⟨hn, hle⟩] at hbefore hint
  rw [if_neg (by omega)] at hafter hint'
  have h₁ := hpost LogEntry.bounded? rfl t.1
  have h₂ := hpost LogEntry.integer? rfl t.1
  rw [hpre]
  exact ⟨hbefore, hint, by omega, by omega⟩

end Installs

end LinearProgram
