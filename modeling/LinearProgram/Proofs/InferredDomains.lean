import LinearProgram.Proofs.BufferedCalls
import LinearProgram.Proofs.NativeFiles
import LinearProgram.Proofs.NumberLine

/-! The domains that the columns of a file are given, against the values that these columns allow. A
domain is inferred from the type of its column and from whether there is a lower bound, whatever
this bound is, so it may be too narrow. -/

namespace LinearProgram

open Binary64

namespace Column

/-- Whether the column may take the value, by its bounds and by its type. -/
structure Permits (c : Column Float) (x : Float) : Prop where
  finite : isFinite x = true
  lower : ∀ l ∈ c.lower, l ≤ x
  upper : ∀ u ∈ c.upper, x ≤ u
  integral : c.isInteger = true → isIntegral x = true

def BoundsAreNumbers (c : Column Float) : Prop :=
  (∀ l ∈ c.lower, isNaN l = false) ∧ ∀ u ∈ c.upper, isNaN u = false

/-- No value of the column lies outside its inferred domain. -/
def InferredSoundly (c : Column Float) : Prop :=
  ∀ x, c.Permits x → (Domain.infer c).admits x = true

/-- The bounds keep what the inferred domain leaves out. -/
def BoundsFit (c : Column Float) : Prop :=
  match c.type with
  | .continuous => ∀ l ∈ c.lower, 0 ≤ l
  | .integer => ∀ l ∈ c.lower, -1 < l
  | .binary => (∃ l ∈ c.lower, -1 < l) ∧ ∃ u ∈ c.upper, u < 2

end Column

theorem place_of_toRat {x : Float} {q : Rat} (hf : isFinite x = true) (hq : toRat x = q) :
    place x = (q : WithTop Rat) := by
  rw [place_of_isFinite hf, hq]

/-! The values of a binary variable and the whole numbers next to them. -/

theorem isFinite_constants : isFinite (-1) = true ∧ isFinite 0 = true ∧ isFinite 1 = true ∧
    isFinite 2 = true := by
  decide +kernel

theorem isIntegral_constants : isIntegral (-1) = true ∧ isIntegral 2 = true := by
  decide +kernel

theorem toRat_constants : toRat (-1) = -1 ∧ toRat 0 = 0 ∧ toRat 1 = 1 ∧ toRat 2 = 2 := by
  decide +kernel

theorem isNaN_neg_one : isNaN (-1) = false :=
  isNaN_of_isFinite isFinite_constants.1

theorem isNaN_zero : isNaN 0 = false :=
  isNaN_of_isFinite isFinite_constants.2.1

theorem isNaN_one : isNaN 1 = false :=
  isNaN_of_isFinite isFinite_constants.2.2.1

theorem isNaN_two : isNaN 2 = false :=
  isNaN_of_isFinite isFinite_constants.2.2.2

theorem places : place (-1) = ((-1 : Rat) : WithTop Rat) ∧ place 0 = ((0 : Rat) : WithTop Rat) ∧
    place 1 = ((1 : Rat) : WithTop Rat) ∧ place 2 = ((2 : Rat) : WithTop Rat) := by
  obtain ⟨hneg, hzero, hone, htwo⟩ := isFinite_constants
  obtain ⟨tneg, tzero, tone, ttwo⟩ := toRat_constants
  exact ⟨place_of_toRat hneg tneg, place_of_toRat hzero tzero, place_of_toRat hone tone,
    place_of_toRat htwo ttwo⟩

theorem place_neg_one_lt_zero : place (-1) < place 0 := by
  obtain ⟨hneg, hzero, -⟩ := places
  rw [hneg, hzero]
  exact_mod_cast (by norm_num : (-1 : Rat) < 0)

theorem place_zero_lt_one : place 0 < place 1 := by
  obtain ⟨-, hzero, hone, -⟩ := places
  rw [hzero, hone]
  exact_mod_cast (by norm_num : (0 : Rat) < 1)

theorem place_one_lt_two : place 1 < place 2 := by
  obtain ⟨-, -, hone, htwo⟩ := places
  rw [hone, htwo]
  exact_mod_cast (by norm_num : (1 : Rat) < 2)

/-- Above -1 the whole numbers begin with 0, and below 2 they end with 1. -/
theorem zero_le_of_isIntegral {x : Float} (h : isIntegral x = true)
    (hx : place (-1) < place x) : place 0 ≤ place x := by
  obtain ⟨hneg, hzero, -⟩ := places
  obtain ⟨n, hn⟩ := exists_place_eq h
  rw [hn, hneg] at hx
  rw [hn, hzero]
  have hlt : (-1 : Int) < n := by exact_mod_cast hx
  have hle : (0 : Int) ≤ n := by omega
  exact_mod_cast hle

theorem eq_zero_or_one_of_isIntegral {x : Float} (h : isIntegral x = true)
    (hl : place (-1) < place x) (hu : place x < place 2) :
    place x = place 0 ∨ place x = place 1 := by
  obtain ⟨hneg, hzero, hone, htwo⟩ := places
  obtain ⟨n, hn⟩ := exists_place_eq h
  rw [hn, hneg] at hl
  rw [hn, htwo] at hu
  have hlt : (-1 : Int) < n := by exact_mod_cast hl
  have hlt' : n < (2 : Int) := by exact_mod_cast hu
  obtain rfl | rfl : n = 0 ∨ n = 1 := by omega
  · exact .inl (hn.trans (by rw [hzero, Int.cast_zero]))
  · exact .inr (hn.trans (by rw [hone, Int.cast_one]))

theorem Domain.admits_iff {d : Domain} {x : Float} : d.admits x = true ↔
    isFinite x = true ∧ (d.isInteger = true → isIntegral x = true) ∧
      match d.range with
      | .unconstrained => True
      | .nonNegative => 0 ≤ x
      | .binary => (x == 0) = true ∨ (x == 1) = true := by
  have hbool (f i n r : Bool) :
      (f && (!i || n) && r) = true ↔ f = true ∧ (i = true → n = true) ∧ r = true := by
    revert f i n r
    decide
  obtain ⟨kind, range, constant⟩ := d
  refine (hbool _ _ _ _).trans (and_congr Iff.rfl (and_congr Iff.rfl ?_))
  cases range with
  | unconstrained => exact iff_of_true rfl trivial
  | nonNegative => exact decide_eq_true_iff
  | binary => exact Bool.or_eq_true_iff

namespace Column

variable {c : Column Float} {x y : Float} {t : WithBot (WithTop Rat)}

namespace Permits

theorem isNaN (h : c.Permits x) : Binary64.isNaN x = false :=
  isNaN_of_isFinite h.finite

theorem place_lower (h : c.Permits x) (hb : c.BoundsAreNumbers) :
    ∀ l ∈ c.lower, place l ≤ place x :=
  fun l hl => (le_iff (hb.1 l hl) h.isNaN).1 (h.lower l hl)

theorem place_upper (h : c.Permits x) (hb : c.BoundsAreNumbers) :
    ∀ u ∈ c.upper, place x ≤ place u :=
  fun u hu => (le_iff h.isNaN (hb.2 u hu)).1 (h.upper u hu)

/-- Where the lower bound lets something through below `t`, a value there is permitted. -/
theorem exists_below (h : c.Permits x) (hb : c.BoundsAreNumbers) (hy : isFinite y = true)
    (hi : c.isInteger = true → isIntegral y = true) (hl : ∀ l ∈ c.lower, place l ≤ place y)
    (ht : place y < t) : ∃ z, c.Permits z ∧ place z < t := by
  by_cases hx : place x < t
  · exact ⟨x, h, hx⟩
  · have hyx : place y ≤ place x := ht.le.trans (not_lt.1 hx)
    have hyn := isNaN_of_isFinite hy
    refine ⟨y, ⟨hy, fun l hm => (le_iff (hb.1 l hm) hyn).2 (hl l hm), fun u hm => ?_, hi⟩, ht⟩
    exact (le_iff hyn (hb.2 u hm)).2 (hyx.trans (h.place_upper hb u hm))

theorem exists_above (h : c.Permits x) (hb : c.BoundsAreNumbers) (hy : isFinite y = true)
    (hi : c.isInteger = true → isIntegral y = true) (hu : ∀ u ∈ c.upper, place y ≤ place u)
    (ht : t < place y) : ∃ z, c.Permits z ∧ t < place z := by
  by_cases hx : t < place x
  · exact ⟨x, h, hx⟩
  · have hxy : place x ≤ place y := (not_lt.1 hx).trans ht.le
    have hyn := isNaN_of_isFinite hy
    refine ⟨y, ⟨hy, fun l hm => ?_, fun u hm => (le_iff hyn (hb.2 u hm)).2 (hu u hm), hi⟩, ht⟩
    exact (le_iff (hb.1 l hm) hyn).2 ((h.place_lower hb l hm).trans hxy)

end Permits

/-- What the inferred domain asks beyond what the column asks. -/
theorem admits_infer_iff (h : c.Permits x) : (Domain.infer c).admits x = true ↔
    match c.type with
    | .binary => place x = place 0 ∨ place x = place 1
    | .continuous | .integer => c.lower.isSome = true → place 0 ≤ place x := by
  rw [Domain.admits_iff]
  have hf := h.finite
  have hi := h.integral
  have hle : 0 ≤ x ↔ place 0 ≤ place x := le_iff isNaN_zero h.isNaN
  unfold Domain.infer isInteger at *
  cases ht : c.type with
  | binary =>
    have hint : isIntegral x = true := hi (by rw [ht]; rfl)
    have h0 : (x == 0) = true ↔ place x = place 0 := beq_iff h.isNaN isNaN_zero
    have h1 : (x == 1) = true ↔ place x = place 1 := beq_iff h.isNaN isNaN_one
    simp [Domain.binaryInteger, hf, hint, h0, h1]
  | continuous => cases hl : c.lower <;> simp [Domain.isInteger, hf, hle]
  | integer =>
    have hint : isIntegral x = true := hi (by rw [ht]; rfl)
    cases hl : c.lower <;> simp [hf, hint, hle]

theorem soundly_of_fits (hb : c.BoundsAreNumbers) (hfit : c.BoundsFit) : c.InferredSoundly := by
  intro x hx
  rw [admits_infer_iff hx]
  have hlower := hx.place_lower hb
  have hupper := hx.place_upper hb
  have hi := hx.integral
  unfold BoundsFit isInteger at *
  cases ht : c.type with
  | continuous =>
    rw [ht] at hfit
    intro hsome
    obtain ⟨l, hl⟩ := Option.isSome_iff_exists.1 hsome
    exact ((le_iff isNaN_zero (hb.1 l hl)).1 (hfit l hl)).trans (hlower l hl)
  | integer =>
    rw [ht] at hfit hi
    intro hsome
    obtain ⟨l, hl⟩ := Option.isSome_iff_exists.1 hsome
    have hlt := (lt_iff isNaN_neg_one (hb.1 l hl)).1 (hfit l hl)
    exact zero_le_of_isIntegral (hi rfl) (hlt.trans_le (hlower l hl))
  | binary =>
    rw [ht] at hfit hi
    obtain ⟨⟨l, hl, hlfit⟩, u, hu, hufit⟩ := hfit
    have hlt := (lt_iff isNaN_neg_one (hb.1 l hl)).1 hlfit
    have hlt' := (lt_iff (hb.2 u hu) isNaN_two).1 hufit
    exact eq_zero_or_one_of_isIntegral (hi rfl) (hlt.trans_le (hlower l hl))
      ((hupper u hu).trans_lt hlt')

theorem not_admits_of_neg (h : c.Permits x) (hc : c.lower.isSome = true ∨ c.type = .binary)
    (hx : place x < place 0) : ¬ (Domain.infer c).admits x = true := by
  rw [admits_infer_iff h]
  cases ht : c.type with
  | continuous | integer =>
    have hsome : c.lower.isSome = true := hc.resolve_right (by rw [ht]; exact nofun)
    exact fun h => absurd (h hsome) (not_le.2 hx)
  | binary =>
    rintro (h | h)
    · exact absurd h hx.ne
    · exact absurd h (hx.trans place_zero_lt_one).ne

theorem not_admits_of_one_lt (h : c.Permits x) (ht : c.type = .binary) (hx : place 1 < place x) :
    ¬ (Domain.infer c).admits x = true := by
  rw [admits_infer_iff h, ht]
  rintro (h | h)
  · exact absurd h (place_zero_lt_one.trans hx).ne'
  · exact absurd h hx.ne'

theorem exists_finite_of_neg {l : Float} (h : place l < place 0) :
    ∃ y, isFinite y = true ∧ place l ≤ place y ∧ place y < place 0 := by
  cases hf : isFinite l with
  | true => exact ⟨l, hf, le_rfl, h⟩
  | false =>
    have hs : isNegative l = true := by
      by_contra hs
      rw [place_of_not_isNegative hf (Bool.eq_false_of_not_eq_true hs)] at h
      exact not_top_lt h
    refine ⟨-1, isFinite_constants.1, ?_, place_neg_one_lt_zero⟩
    rw [place_of_isNegative hf hs]
    exact bot_le

/-- Where the bounds do not fit, the column permits a value below zero or above one that its domain
leaves out. -/
theorem exists_excluded (hb : c.BoundsAreNumbers) (hfit : ¬ c.BoundsFit) (hx : c.Permits x) :
    ∃ z, c.Permits z ∧ ¬ (Domain.infer c).admits z = true := by
  obtain ⟨hone, -, -, htwo⟩ := isFinite_constants
  obtain ⟨hint, hint'⟩ := isIntegral_constants
  unfold BoundsFit at hfit
  cases ht : c.type with
  | continuous =>
    simp only [ht, not_forall] at hfit
    obtain ⟨l, hl, hneg⟩ := hfit
    rw [le_iff isNaN_zero (hb.1 l hl), not_le] at hneg
    obtain ⟨y, hy, hly, hy0⟩ := exists_finite_of_neg hneg
    have hreal : c.isInteger = true → isIntegral y = true := by simp [isInteger, ht]
    obtain ⟨z, hz, hz0⟩ := hx.exists_below hb hy hreal
      (fun l' hl' => Option.mem_unique hl hl' ▸ hly) hy0
    exact ⟨z, hz, not_admits_of_neg hz (.inl (Option.isSome_of_mem hl)) hz0⟩
  | integer =>
    simp only [ht, not_forall] at hfit
    obtain ⟨l, hl, hneg⟩ := hfit
    rw [lt_iff isNaN_neg_one (hb.1 l hl), not_lt] at hneg
    obtain ⟨z, hz, hz0⟩ := hx.exists_below hb hone (fun _ => hint)
      (fun l' hl' => Option.mem_unique hl hl' ▸ hneg) place_neg_one_lt_zero
    exact ⟨z, hz, not_admits_of_neg hz (.inl (Option.isSome_of_mem hl)) hz0⟩
  | binary =>
    simp only [ht] at hfit
    rcases not_and_or.1 hfit with hlower | hupper
    · have hl : ∀ l ∈ c.lower, place l ≤ place (-1) := fun l hl =>
        not_lt.1 fun h => hlower ⟨l, hl, (lt_iff isNaN_neg_one (hb.1 l hl)).2 h⟩
      obtain ⟨z, hz, hz0⟩ := hx.exists_below hb hone (fun _ => hint) hl place_neg_one_lt_zero
      exact ⟨z, hz, not_admits_of_neg hz (.inr ht) hz0⟩
    · have hu : ∀ u ∈ c.upper, place 2 ≤ place u := fun u hu =>
        not_lt.1 fun h => hupper ⟨u, hu, (lt_iff (hb.2 u hu) isNaN_two).2 h⟩
      obtain ⟨z, hz, hz1⟩ := hx.exists_above hb htwo (fun _ => hint') hu place_one_lt_two
      exact ⟨z, hz, not_admits_of_one_lt hz ht hz1⟩

theorem inferredSoundly_iff (hb : c.BoundsAreNumbers) :
    c.InferredSoundly ↔ c.BoundsFit ∨ ∀ x, ¬ c.Permits x := by
  constructor
  · intro h
    by_cases hfit : c.BoundsFit
    · exact .inl hfit
    · refine .inr fun x hx => ?_
      obtain ⟨z, hz, hout⟩ := exists_excluded hb hfit hx
      exact hout (h z hz)
  · rintro (hfit | hnone)
    · exact soundly_of_fits hb hfit
    · exact fun x hx => absurd hx (hnone x)

end Column

namespace Model

variable {m n : Model Float (ServiceBackend Float)} {path : String} {files : Files} {s : Snapshot}

theorem entries_of_load [Json.NumberReader] (h : Call.load path files m = .ok s n) :
    n.registry.entries = n.backend.problem.columns.map VariableInfo.ofColumn := by
  have hc : (Action.load path files).call m = .ok (.loaded s) n := Call.bind_of_ok h
  have hmoves := m.moves_load path files
  rw [Action.answer_of_ok hc, Action.after_of_ok hc] at hmoves
  cases hmoves
  rfl

end Model

/-- The inferred domain has all values of its column just when the bounds of the column keep what
the domain leaves out, or the column has no value at all. So it is for every variable that has the
column after a load from any file. -/
theorem inferred_domains_sound_iff [Json.NumberReader] (c : Column Float)
    (hb : c.BoundsAreNumbers) :
    (c.InferredSoundly ↔ c.BoundsFit ∨ ∀ x, ¬ c.Permits x) ∧
      ∀ (m n : Model Float (ServiceBackend Float)) (path : String) (files : Files) (s : Snapshot),
        Call.load path files m = .ok s n →
        n.registry.entries.length = n.backend.problem.columns.length ∧
        ∀ (i : Nat) (e : VariableInfo Float), n.registry.entries[i]? = some e →
          n.backend.problem.columns[i]? = some c →
          ((∀ x, c.Permits x → e.domain.admits x = true) ↔
            c.BoundsFit ∨ ∀ x, ¬ c.Permits x) := by
  refine ⟨Column.inferredSoundly_iff hb, fun m n path files s h => ?_⟩
  have hentries := Model.entries_of_load h
  refine ⟨by rw [hentries, List.length_map], fun i e he hc => ?_⟩
  rw [hentries, List.getElem?_map, hc] at he
  obtain rfl := Option.some.inj he
  exact Column.inferredSoundly_iff hb

/-- The first column goes down to -5, and the second one begins at 3. -/
def lowered : Problem Float where
  columns := [⟨.continuous, some (-5), none, "x"⟩, ⟨.integer, some 3, some 8, "n"⟩]

theorem inferred_domains_sound_iff_lowered :
    ∃ files n, Call.load "x.json" files (Build.newModel 0) = .ok ⟨0, 2⟩ n ∧
      n.backend.problem.columns = lowered.columns ∧
      ∃ d e, n.registry.entries = [d, e] ∧
        ¬ (∀ x, Column.Permits ⟨.continuous, some (-5), none, "x"⟩ x → d.domain.admits x = true) ∧
        ∀ x, Column.Permits ⟨.integer, some 3, some 8, "n"⟩ x → e.domain.admits x = true := by
  have hjson : Format.ofPath "x.json" = .json := by decide
  obtain ⟨files, hw⟩ :
      ∃ files, ({} : Files).writeText? "x.json" lowered.toJson.pretty = some files := ⟨_, rfl⟩
  have hr := Files.readText?_of_writeText? hw
  have hd : Codec.decode (Format.ofPath "x.json") lowered.toJson.pretty = .ok lowered := by
    rw [hjson]
    exact (Problem.decode_encode_json_eq_self (by decide +kernel)).2 (by decide +kernel)
  obtain ⟨n, hload⟩ := Call.load_of_decode (m := Build.newModel 0) rfl hr hd
  obtain ⟨q, reported, hq, -, hn⟩ := Call.exists_of_load rfl hr hload
  obtain rfl : lowered = q := Except.ok.inj (hd.symm.trans hq)
  have hcolumns : n.backend.problem.columns = lowered.columns := by rw [hn]; rfl
  have hx : Column.BoundsAreNumbers ⟨.continuous, some (-5), none, "x"⟩ :=
    ⟨by decide +kernel, nofun⟩
  have hk : Column.BoundsAreNumbers ⟨.integer, some 3, some 8, "n"⟩ :=
    ⟨by decide +kernel, by decide +kernel⟩
  obtain ⟨-, hreal⟩ := (inferred_domains_sound_iff _ hx).2 _ _ _ _ _ hload
  obtain ⟨-, hwhole⟩ := (inferred_domains_sound_iff _ hk).2 _ _ _ _ _ hload
  rw [hcolumns] at hreal hwhole
  refine ⟨files, n, hload, hcolumns, _, _, by rw [hn]; rfl, ?_, ?_⟩
  · rw [hreal 0 _ (by rw [hn]; rfl) rfl]
    rintro (hfit | hnone)
    · exact absurd (hfit (-5) rfl) (by decide +kernel)
    · exact hnone 0 ⟨by decide +kernel, by decide +kernel, nofun, nofun⟩
  · rw [hwhole 1 _ (by rw [hn]; rfl) rfl]
    exact .inl (by decide +kernel : ∀ l ∈ some (3 : Float), -1 < l)

end LinearProgram
