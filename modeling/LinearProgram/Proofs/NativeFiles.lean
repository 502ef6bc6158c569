import LinearProgram.Proofs.MpsInNativeForm
import LinearProgram.Proofs.SaveLoad

/-! Programs that the native form keeps as they are, down to their configuration: those with finite
numbers only, where the reader of numbers finds each of them again. A backend that loads the file of
one holds it under its own configuration. -/

namespace LinearProgram

open Binary64 Json

theorem filter_isFinite_eq_self (x : Option Float) :
    x.filter isFinite = x ↔ ∀ y ∈ x, isFinite y = true := by
  cases x with
  | none => simp
  | some y =>
    by_cases hy : isFinite y = true
    · simp [Option.filter, hy]
    · simp [Option.filter, hy]

theorem Column.restored_eq_self (c : Column Float) :
    c.restored = c ↔ Mps.BoundsOf (isFinite · = true) c := by
  have hl := filter_isFinite_eq_self c.lower
  have hu := filter_isFinite_eq_self c.upper
  rw [Mps.BoundsOf, ← hl, ← hu]
  obtain ⟨type, lower, upper, name⟩ := c
  simp [restored]

namespace Config

def FiniteLimits (c : Config Float) : Prop :=
  (∀ x ∈ c.timeLimit, isFinite x = true) ∧ ∀ x ∈ c.gapTolerance, isFinite x = true

instance (c : Config Float) : Decidable c.FiniteLimits :=
  inferInstanceAs (Decidable (_ ∧ _))

theorem restored_eq_self (c : Config Float) : c.restored = c ↔ c.FiniteLimits := by
  have ht := filter_isFinite_eq_self c.timeLimit
  have hg := filter_isFinite_eq_self c.gapTolerance
  rw [FiniteLimits, ← ht, ← hg]
  obtain ⟨solver, timeLimit, gapTolerance, verbose⟩ := c
  simp [restored]

end Config

theorem Terms.storable_iff_and {ts : Terms Float} :
    ts.storable = true ↔ (∀ t ∈ ts, t.1 < UInt64.size) ∧ ∀ t ∈ ts, isFinite t.2 = true := by
  simp [storable, forall_and]

namespace Problem

/-- Offsets are words of 64 bits. -/
def OffsetsFit (p : Problem Float) : Prop :=
  (∀ t ∈ p.objective.terms, t.1 < UInt64.size) ∧
    ∀ c ∈ p.constraints, ∀ t ∈ c.terms, t.1 < UInt64.size

instance (p : Problem Float) : Decidable p.OffsetsFit :=
  inferInstanceAs (Decidable (_ ∧ _))

structure AllFinite (p : Problem Float) : Prop where
  rows : p.FiniteRows
  bounds : p.FiniteBounds
  limits : p.config.FiniteLimits

instance (p : Problem Float) : Decidable p.AllFinite :=
  decidable_of_iff (p.FiniteRows ∧ p.FiniteBounds ∧ p.config.FiniteLimits)
    ⟨fun h => ⟨h.1, h.2.1, h.2.2⟩, fun h => ⟨h.rows, h.bounds, h.limits⟩⟩

variable {p : Problem Float}

theorem storable_iff_and : p.storable = true ↔ p.OffsetsFit ∧ p.FiniteRows := by
  simp only [storable, Constraint.storable, Bool.and_eq_true, List.all_eq_true,
    Terms.storable_iff_and, OffsetsFit, FiniteRows]
  constructor
  · rintro ⟨⟨hw, hf⟩, hrows⟩
    exact ⟨⟨hw, fun c hc => (hrows c hc).1.1⟩, hf, fun c hc => ⟨(hrows c hc).1.2, (hrows c hc).2⟩⟩
  · rintro ⟨⟨hw, hws⟩, hf, hrows⟩
    exact ⟨⟨hw, hf⟩, fun c hc => ⟨⟨hws c hc, (hrows c hc).1⟩, (hrows c hc).2⟩⟩

theorem restored_eq_self : p.restored = p ↔ p.FiniteBounds ∧ p.config.FiniteLimits := by
  have hcolumns : p.columns.map Column.restored = p.columns ↔ p.FiniteBounds := by
    calc p.columns.map Column.restored = p.columns
        ↔ p.columns.map Column.restored = p.columns.map id := by rw [List.map_id]
      _ ↔ ∀ c ∈ p.columns, c.restored = c := List.map_eq_map_iff
      _ ↔ p.FiniteBounds := forall₂_congr fun c _ => c.restored_eq_self
  rw [← hcolumns, ← Config.restored_eq_self]
  obtain ⟨name, objective, constraints, columns, config⟩ := p
  simp [restored]

/-- What is written of a program is parsed as that program just when its numbers are finite. -/
theorem decode_encode_json_eq_self [NumberReader] (hread : ∀ x ∈ p.numbers, ReadsBack x) :
    Codec.decode .json p.toJson.pretty = .ok p ↔ p.OffsetsFit ∧ p.AllFinite := by
  obtain ⟨written, he, hd⟩ := decode_encode_json hread
  obtain rfl : p.toJson.pretty = written := Except.ok.inj he
  rw [hd, storable_iff_and, eq_comm, restored_eq_self]
  constructor
  · rintro ⟨⟨hw, hf⟩, hb, hl⟩
    exact ⟨hw, hf, hb, hl⟩
  · rintro ⟨hw, hf, hb, hl⟩
    exact ⟨⟨hw, hf⟩, hb, hl⟩

/-- The exact reader asks no more of a program than that its numbers are finite. -/
theorem decode_encode_json_exactly :
    @Codec.decode Float (@instCodecFloat exactReader) .json p.toJson.pretty = .ok p ↔
      p.OffsetsFit ∧ p.AllFinite :=
  @decode_encode_json_eq_self p exactReader fun x _ => readsBack_exactReader x

/-- A program is written in the native form whatever it holds, and saving it puts this text in the
file. Where the numbers of the program are read back, the text is parsed as the program itself just
when all of them are finite, and then a backend that loads the file holds the program, all but for
the configuration, which stays its own, and no solution. -/
theorem native_round_trip [NumberReader] (p : Problem Float)
    (hread : ∀ x ∈ p.numbers, ReadsBack x) :
    Codec.encode .json p = .ok p.toJson.pretty ∧
      (Codec.decode .json p.toJson.pretty = .ok p ↔ p.OffsetsFit ∧ p.AllFinite) ∧
      (∀ (b b' : ServiceBackend Float) (path : String) (files files' : Files) (events : List Event),
        b.problem = p → Format.ofPath path = .json →
        Backend.save path files b = .ok (files', events) b' →
        b' = b ∧ files'.readText? path = some p.toJson.pretty) ∧
      (p.OffsetsFit → p.AllFinite →
        ∀ (b : ServiceBackend Float) (path : String) (files : Files),
          Format.ofPath path = .json → files.readText? path = some p.toJson.pretty →
          Backend.load path files b =
            .ok [.loadedFile path p.columns.length p.constraints.length]
              { b with
                problem := { p with config := b.problem.config }
                solution := none }) := by
  refine ⟨rfl, decode_encode_json_eq_self hread, ?_, ?_⟩
  · intro b b' path files files' events hp hf hs
    cases hsaved : b.problem.save path files with
    | error e =>
      rw [ServiceBackend.save_of_error hsaved] at hs
      cases hs
    | ok r =>
      rw [ServiceBackend.save_of_ok hsaved] at hs
      cases hs
      obtain ⟨text, he, hr⟩ := exists_of_save hsaved
      rw [hf, hp] at he
      obtain rfl : p.toJson.pretty = text := Except.ok.inj he
      exact ⟨rfl, hr⟩
  · intro hw hf b path files hformat hr
    have hd : Codec.decode (Format.ofPath path) p.toJson.pretty = .ok p := by
      rw [hformat]
      exact (decode_encode_json_eq_self hread).2 ⟨hw, hf⟩
    exact b.load_of_decode hr hd

/-- Names that have to be escaped, no name at all, numbers at both ends of the range, a zero below
zero, a column twice in one row, and offsets past the last column. -/
def motley : Problem Float where
  name := "\"quoted\" \\ \u0000\n\u2028 😀"
  objective := ⟨.maximize, [(0, -0), (0, Build.least), (7, -1)]⟩
  constraints := [
    ⟨.lessEqual, [], -Build.least, ""⟩,
    ⟨.equal, [(1, 1), (0, ofBitPattern true (infinityBits - 1)), (1, 1)], -0, "\r\t"⟩]
  columns := [
    ⟨.continuous, none, some (-0), ""⟩,
    ⟨.integer, some (-1), none, "\u007f\u00e9"⟩,
    ⟨.binary, none, none, ""⟩]
  config := ⟨.highs, some Build.least, none, true⟩

theorem native_round_trip_motley :
    motley.OffsetsFit ∧ motley.AllFinite ∧ (∀ x ∈ motley.numbers, ReadsBack x) ∧
      Codec.decode .json motley.toJson.pretty = .ok motley ∧
      ∃ (b : ServiceBackend Float) (files : Files) (events : List Event),
        b.problem = motley ∧ Backend.save "m.json" {} b = .ok (files, events) b ∧
        Backend.load "m.json" files (Build.newModel 0).backend =
          .ok [.loadedFile "m.json" 3 2]
            { (Build.newModel 0).backend with problem := { motley with config := {} } } := by
  have hformat : Format.ofPath "m.json" = .json := by decide
  have hw : motley.OffsetsFit := by decide +kernel
  have hf : motley.AllFinite := by decide +kernel
  have hread : ∀ x ∈ motley.numbers, ReadsBack x := by decide +kernel
  obtain ⟨he, hd, hsave, hload⟩ := native_round_trip motley hread
  let b : ServiceBackend Float := { (Build.newModel 1).backend with problem := motley }
  obtain ⟨files, hwritten⟩ :
      ∃ files, ({} : Files).writeText? "m.json" motley.toJson.pretty = some files :=
    ⟨_, rfl⟩
  have hs : Backend.save "m.json" {} b = .ok (files, _) b :=
    ServiceBackend.save_of_ok (save_of_encode (hformat ▸ he) hwritten)
  obtain ⟨-, hr⟩ := hsave b b "m.json" {} files _ rfl hformat hs
  exact ⟨hw, hf, hread, hd.2 ⟨hw, hf⟩, b, files, _, rfl, hs,
    hload hw hf (Build.newModel 0).backend "m.json" files hformat hr⟩

end Problem

end LinearProgram
