import LinearProgram.Proofs.Feasible
import LinearProgram.Proofs.MpsMeaning
import LinearProgram.Proofs.SolveStates

/-! Which of the columns that are read as binary are kept to zero and one. A bound that is stated
after the type takes the place of the one that the type stands for, in the column and then in the
range that the engine is given. -/

namespace LinearProgram

open Binary64

namespace Engine

/-- A lower bound as the engine takes it. -/
def BoundsBelow (l : Float) (x : Rat) : Prop :=
  isBelowAll l = true ∨ isFinite l = true ∧ toRat l ≤ x

/-- An upper bound as the engine takes it. -/
def BoundsAbove (u : Float) (x : Rat) : Prop :=
  isAboveAll u = true ∨ isFinite u = true ∧ x ≤ toRat u

instance (l : Float) (x : Rat) : Decidable (BoundsBelow l x) :=
  inferInstanceAs (Decidable (_ ∨ _))

instance (u : Float) (x : Rat) : Decidable (BoundsAbove u x) :=
  inferInstanceAs (Decidable (_ ∨ _))

theorem BoundsBelow.mono {l : Float} {x y : Rat} (h : BoundsBelow l x) (hxy : x ≤ y) :
    BoundsBelow l y :=
  h.imp_right fun h => ⟨h.1, h.2.trans hxy⟩

theorem BoundsAbove.mono {u : Float} {x y : Rat} (h : BoundsAbove u y) (hxy : x ≤ y) :
    BoundsAbove u x :=
  h.imp_right fun h => ⟨h.1, hxy.trans h.2⟩

theorem boundsBelow_zero {x : Rat} : BoundsBelow 0 x ↔ 0 ≤ x := by
  have h : isBelowAll 0 = false ∧ isFinite 0 = true ∧ toRat 0 = 0 := by decide +kernel
  rw [BoundsBelow, h.1, h.2.1, h.2.2]
  simp

theorem boundsAbove_one {x : Rat} : BoundsAbove 1 x ↔ x ≤ 1 := by
  have h : isAboveAll 1 = false ∧ isFinite 1 = true ∧ toRat 1 = 1 := by decide +kernel
  rw [BoundsAbove, h.1, h.2.1, h.2.2]
  simp

theorem lt_of_boundsBelow {l : Float} {x y : Rat} (h : BoundsBelow l x) (hn : ¬ BoundsBelow l y) :
    y < x :=
  lt_of_not_ge fun hxy => hn (h.mono hxy)

theorem lt_of_boundsAbove {u : Float} {x y : Rat} (h : BoundsAbove u x) (hn : ¬ BoundsAbove u y) :
    x < y :=
  lt_of_not_ge fun hxy => hn (h.mono hxy)

/-- A number that leaves out minus one as a lower bound and two as an upper bound. -/
def IsNearUnit (x : Float) : Prop :=
  isFinite x = true ∧ -1 < toRat x ∧ toRat x < 2

instance : DecidablePred IsNearUnit :=
  fun _ => inferInstanceAs (Decidable (_ ∧ _))

namespace IsNearUnit

variable {x : Float} (h : IsNearUnit x)
include h

theorem not_boundsBelow : ¬ BoundsBelow x (-1) := by
  rintro (hbelow | ⟨-, hle⟩)
  · simp [isBelowAll, h.1] at hbelow
  · exact absurd h.2.1 (not_lt_of_ge hle)

theorem not_boundsAbove : ¬ BoundsAbove x 2 := by
  rintro (habove | ⟨-, hle⟩)
  · simp [isAboveAll, h.1] at habove
  · exact absurd h.2.2 (not_lt_of_ge hle)

end IsNearUnit

/-- The values that a variable may take. -/
structure Range.Allows (r : Range Float) (x : Rat) : Prop where
  lower : ∀ l ∈ r.lower, BoundsBelow l x
  upper : ∀ u ∈ r.upper, BoundsAbove u x
  integral : r.integer = true → ∃ n : Int, x = n

namespace Range.Allows

variable {r : Range Float} {x y : Rat}

theorem lowered (h : r.Allows x) (hyx : y ≤ x) (hy : ∃ n : Int, y = n)
    (hl : ∀ l ∈ r.lower, BoundsBelow l y) : r.Allows y :=
  ⟨hl, fun u hu => (h.upper u hu).mono hyx, fun _ => hy⟩

theorem raised (h : r.Allows x) (hxy : x ≤ y) (hy : ∃ n : Int, y = n)
    (hu : ∀ u ∈ r.upper, BoundsAbove u y) : r.Allows y :=
  ⟨fun l hl => (h.lower l hl).mono hxy, hu, fun _ => hy⟩

end Range.Allows

instance (r : Range Float) (x : Rat) : Decidable (r.Allows x) :=
  decidable_of_iff ((∀ l ∈ r.lower, BoundsBelow l x) ∧ (∀ u ∈ r.upper, BoundsAbove u x) ∧
      (r.integer = true → x.den = 1))
    ⟨fun ⟨hl, hu, hi⟩ => ⟨hl, hu, fun h => exists_int_iff.2 (hi h)⟩,
      fun h => ⟨h.lower, h.upper, fun hi => exists_int_iff.1 (h.integral hi)⟩⟩

/-- No value but zero and one is allowed. -/
def Range.IsBinary (r : Range Float) : Prop :=
  ∀ x, r.Allows x → x = 0 ∨ x = 1

/-- The engine gives each variable a value in its range, if any. -/
def Exact (engine : Program Float → Outcome) : Prop :=
  ∀ p values, engine p = .optimal values →
    List.Forall₂ (fun r x => isFinite x = true ∧ r.Allows (toRat x)) p.ranges values

/-- The engine that is built in, where what it finds is in the ranges. -/
def runInRanges (p : Program Float) : Outcome :=
  match run p with
  | .optimal values =>
    if List.Forall₂ (fun r x => isFinite x = true ∧ r.Allows (toRat x)) p.ranges values then
      .optimal values
    else .failed "out of range"
  | o => o

theorem exact_runInRanges : Exact runInRanges := by
  intro p values h
  unfold runInRanges at h
  split at h
  · split at h
    · rename_i hall
      cases h
      exact hall
    · cases h
  · rename_i hne
    exact absurd h (hne values)

end Engine

open Engine

/-- What an engine that keeps to the ranges finds optimal has a value in each range. -/
theorem Problem.exists_value_of_optimal {engine : Engine.Program Float → Outcome}
    (hengine : Exact engine) {name : String} {p : Problem Float} {s : Solution Float}
    {reported : List Event} (hs : (engineService name engine).solve p = .ok (s, reported))
    (hoptimal : s.status.shared = .optimal) {i : Nat} {r : Range Float}
    (hr : p.program.ranges[i]? = some r) :
    ∃ x, s.values[i]? = some x ∧ isFinite x = true ∧ r.Allows (toRat x) := by
  obtain ⟨events, hsolution⟩ := exists_of_engineService hs
  cases ho : engine p.program with
  | optimal values =>
    rw [ho] at hsolution
    cases hsolution
    obtain ⟨hlt, rfl⟩ := List.getElem?_eq_some_iff.1 hr
    have hall := hengine _ _ ho
    have hlt' : i < values.length := hall.length_eq ▸ hlt
    exact ⟨values[i], List.getElem?_eq_getElem hlt', hall.get hlt hlt'⟩
  | infeasible | unbounded | failed =>
    rw [ho] at hsolution
    cases hsolution
    cases hoptimal

namespace Column

variable {c : Column Float} {x : Rat}

theorem lower_range_of_mem {l : Float} (hl : l ∈ c.lower) : c.range.lower = some l := by
  simp [range, Option.mem_def.1 hl]

theorem upper_range_of_mem {u : Float} (hu : u ∈ c.upper) : c.range.upper = some u := by
  simp [range, Option.mem_def.1 hu]

section Binary

variable (hb : c.type = .binary) (hx : c.range.Allows x)
include hb hx

/-- Without a lower bound of its own a binary column has zero for it. -/
theorem neg_one_lt_of_allows (hl : ∀ l ∈ c.lower, ¬ BoundsBelow l (-1)) : -1 < x := by
  cases hc : c.lower with
  | none =>
    have h0 : c.range.lower = some 0 := by
      rw [range, hc, isBinary, hb]
      rfl
    exact lt_of_lt_of_le (by norm_num) (boundsBelow_zero.1 (hx.lower 0 h0))
  | some l => exact lt_of_boundsBelow (hx.lower l (lower_range_of_mem hc)) (hl l hc)

theorem lt_two_of_allows (hu : ∀ u ∈ c.upper, ¬ BoundsAbove u 2) : x < 2 := by
  cases hc : c.upper with
  | none =>
    have h1 : c.range.upper = some 1 := by
      rw [range, hc, isBinary, hb]
      rfl
    exact lt_of_le_of_lt (boundsAbove_one.1 (hx.upper 1 h1)) (by norm_num)
  | some u => exact lt_of_boundsAbove (hx.upper u (upper_range_of_mem hc)) (hu u hc)

end Binary

/-- The bounds of a binary column keep it to zero and one if they leave out the whole numbers next
to these, and also if they leave out everything. -/
theorem isBinary_range_iff (hb : c.type = .binary) :
    c.range.IsBinary ↔
      (∀ l ∈ c.lower, ¬ BoundsBelow l (-1)) ∧ (∀ u ∈ c.upper, ¬ BoundsAbove u 2) ∨
        ∀ x, ¬ c.range.Allows x := by
  constructor
  · intro h
    by_cases hx : ∃ x, c.range.Allows x
    · obtain ⟨x, hx⟩ := hx
      have hbetween : -1 ≤ x ∧ x ≤ 2 := by rcases h x hx with rfl | rfl <;> norm_num
      refine .inl ⟨fun l hl hbelow => ?_, fun u hu habove => ?_⟩
      · have hallows : c.range.Allows (-1) :=
          hx.lowered hbetween.1 ⟨-1, rfl⟩ (by simpa [lower_range_of_mem hl] using hbelow)
        rcases h _ hallows with h | h <;> norm_num at h
      · have hallows : c.range.Allows 2 :=
          hx.raised hbetween.2 ⟨2, rfl⟩ (by simpa [upper_range_of_mem hu] using habove)
        rcases h _ hallows with h | h <;> norm_num at h
    · exact .inr fun x h => hx ⟨x, h⟩
  · rintro (⟨hl, hu⟩ | hnone) x hx
    · have habove : -1 < x := neg_one_lt_of_allows hb hx hl
      have hbelow : x < 2 := lt_two_of_allows hb hx hu
      obtain ⟨n, rfl⟩ := hx.integral (by simp [range, isInteger, hb])
      have hn : -1 < n := by exact_mod_cast habove
      have hn' : n < 2 := by exact_mod_cast hbelow
      obtain rfl | rfl : n = 0 ∨ n = 1 := by omega
      · exact .inl rfl
      · exact .inr rfl
    · exact absurd hx (hnone x)

end Column

namespace Mps

open Stated

variable {text : String} {p : Problem Float} {i : Nat} {c : Column Float}

/-- A binary column of a file is kept to zero and one just if the bounds stated after its type leave
no other whole number, as numbers near zero and one do. An engine that keeps to the ranges then
finds zero or one for it. -/
theorem binary_column_of_read {engine : Engine.Program Float → Outcome} (hengine : Exact engine)
    (hr : read text = .ok p) (hc : p.columns[i]? = some c) (hb : c.type = .binary) (name : String) :
    (∃ earlier later, boundsOn (statements text) c.name = earlier ++ .binary :: later ∧
      (∀ b ∈ later, b.isBinary = false) ∧
      later.foldl (fun c b => b.impose c) (.binary c.name) = c ∧
      ((∀ b ∈ later, ∀ x ∈ b.value?, IsNearUnit x) → c.range.IsBinary)) ∧
    (c.range.IsBinary ↔
      (∀ l ∈ c.lower, ¬ BoundsBelow l (-1)) ∧ (∀ u ∈ c.upper, ¬ BoundsAbove u 2) ∨
        ∀ x, ¬ c.range.Allows x) ∧
    p.program.ranges[i]? = some c.range ∧
    (c.range.IsBinary → ∀ s reported,
      (engineService name engine).solve p = .ok (s, reported) → s.status.shared = .optimal →
        ∃ x, s.values[i]? = some x ∧ (toRat x = 0 ∨ toRat x = 1)) := by
  have hrange : p.program.ranges[i]? = some c.range := by
    rw [Problem.program, List.getElem?_map, hc]
    rfl
  refine ⟨?_, Column.isBinary_range_iff hb, hrange, fun hbinary s reported hs hoptimal => ?_⟩
  · obtain ⟨t, ht, rfl⟩ := after_of_read hr
    have hcolumn : columnOf (statements text) c.name = c :=
      ht.columns.columns c (List.mem_of_getElem? hc)
    have htype : (columnOf (statements text) c.name).type = .binary := by rw [hcolumn, hb]
    obtain ⟨earlier, later, hstated, hlater, hfold⟩ := StatedBound.exists_last_binary htype
    have hfold : later.foldl (fun c b => b.impose c) (.binary c.name) = c := hfold.trans hcolumn
    refine ⟨earlier, later, hstated, hlater, hfold, fun hnear => ?_⟩
    have hzero : IsNearUnit 0 := by decide +kernel
    have hone : IsNearUnit 1 := by decide +kernel
    have hfirst : BoundsOf IsNearUnit (.binary c.name) := by
      constructor
      · rintro _ ⟨⟩
        exact hzero
      · rintro _ ⟨⟩
        exact hone
    have hbounds : BoundsOf IsNearUnit c := by
      rw [← hfold]
      exact StatedBound.boundsOf_foldl hzero hone hfirst hnear
    refine (Column.isBinary_range_iff hb).2 (.inl ⟨fun l hl => ?_, fun u hu => ?_⟩)
    · exact (hbounds.1 l hl).not_boundsBelow
    · exact (hbounds.2 u hu).not_boundsAbove
  · obtain ⟨x, hx, -, hallows⟩ :=
      Problem.exists_value_of_optimal hengine hs hoptimal hrange
    exact ⟨x, hx, hbinary _ hallows⟩

/-- The first of two binary columns may go up to five. -/
def stretched : String :=
  "OBJSENSE\n MAX\nROWS\n N obj\nCOLUMNS\n x obj 1\n y obj 1\nBOUNDS\n" ++
    " BV b x\n UP b x 5\n BV b y\n UP b y 1.5\n LO b y 0\nENDATA\n"

theorem binary_column_of_read_stretched :
    ∃ p c d s reported, read stretched = .ok p ∧ p.validate = .ok () ∧
      p.columns[0]? = some c ∧ c.type = .binary ∧ ¬ c.range.IsBinary ∧
      p.columns[1]? = some d ∧ d.type = .binary ∧ d.range.IsBinary ∧
      Exact runInRanges ∧ (engineService "microlp" runInRanges).solve p = .ok (s, reported) ∧
      s.status.shared = .optimal ∧ (∃ x, s.values[0]? = some x ∧ toRat x = 5) ∧
      ∃ y, s.values[1]? = some y ∧ (toRat y = 0 ∨ toRat y = 1) := by
  obtain ⟨p, hp, hvalid, ⟨c, hc, hcb, hfive⟩, ⟨d, hd, hdb, hdn⟩, ⟨r, hs, hoptimal, x, hx, hxv⟩⟩ :
      ∃ p ∈ (read stretched).toOption, p.defects.isEmpty = true ∧
        (∃ c ∈ p.columns[0]?, c.type = .binary ∧ c.range.Allows 5) ∧
        (∃ d ∈ p.columns[1]?, d.type = .binary ∧
          ∀ b ∈ boundsOn (statements stretched) d.name, ∀ x ∈ b.value?, IsNearUnit x) ∧
        ∃ r ∈ ((engineService "microlp" runInRanges).solve p).toOption,
          r.1.status.shared = .optimal ∧ ∃ x ∈ r.1.values[0]?, toRat x = 5 := by decide +kernel
  have hr : read stretched = .ok p := eq_ok_of_mem_toOption hp
  obtain ⟨⟨earlier, later, hstated, -, -, hnear⟩, -, -, hvalues⟩ :=
    binary_column_of_read exact_runInRanges hr hd hdb "microlp"
  have hbinary : d.range.IsBinary :=
    hnear fun b hb => hdn b (hstated ▸ List.mem_append_right _ (List.mem_cons_of_mem _ hb))
  have hsolve := eq_ok_of_mem_toOption hs
  refine ⟨p, c, d, r.1, r.2, hr, Problem.validate_eq_ok_iff.2 (List.isEmpty_iff.1 hvalid), hc, hcb,
    fun h => ?_, hd, hdb, hbinary, exact_runInRanges, hsolve, hoptimal, ⟨x, hx, hxv⟩,
    hvalues hbinary r.1 r.2 hsolve hoptimal⟩
  rcases h 5 hfive with h | h <;> norm_num at h

end Mps

end LinearProgram
