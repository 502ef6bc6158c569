import LinearProgram.Proofs.Continuation
import LinearProgram.Proofs.MpsFaithful
import LinearProgram.Proofs.SaveLoad

/-! What a file keeps of a model that was built: in either form, its columns and its objective as
they are, and as many rows. -/

namespace LinearProgram

variable {α : Type}

theorem Domain.infer_column [Scalar α] {d : Domain} (hd : d.isSupported = true) (name : String) :
    Domain.infer (d.column name : Column α) = { d with constant := false } := by
  obtain ⟨kind, range, flag⟩ := d
  cases kind <;> cases range <;>
    simp_all [infer, column, isSupported, isInteger, isBinary, binaryInteger]

theorem VariableInfo.outward_ofColumn [Scalar α] {e : VariableInfo α}
    (he : e.domain.isSupported = true) :
    (VariableInfo.ofColumn (e.domain.column e.name : Column α)).outward = e.outward := by
  rw [outward, outward, ofColumn, Domain.infer_column he, Domain.name_column]
  rfl

section Rows

variable [Scalar α]

theorem addTerm_of_lt {ts : List (Term α)} {c : ColumnId} (a : α)
    (h : ∀ t ∈ ts, t.1.number < c.number) : addTerm c a ts = ts ++ [(c, 0 + a)] := by
  induction ts with
  | nil => rfl
  | cons s ts ih =>
    obtain ⟨hs, hts⟩ := List.forall_mem_cons.1 h
    have hne : c ≠ s.1 := by
      rintro rfl
      exact Nat.lt_irrefl _ hs
    rw [addTerm, if_neg (Nat.not_lt_of_gt hs), if_neg hne, ih hts, List.cons_append]

/-- A row is what its terms add up to, if adding each to zero does not change it. -/
theorem LinearRow.entries_ofTerms {ts : List (Term α)} (h : Increasing ts)
    (hz : ∀ t ∈ ts, 0 + t.2 = t.2) : (ofTerms ts).entries = ts := by
  have hall (r : LinearRow α) (ts : List (Term α)) (h : Increasing (r.entries ++ ts))
      (hz : ∀ t ∈ ts, 0 + t.2 = t.2) :
      (ts.foldl (fun r t => r.add t.1 t.2) r).entries = r.entries ++ ts := by
    induction ts generalizing r with
    | nil => simp
    | cons t ts ih =>
      obtain ⟨ht, hts⟩ := List.forall_mem_cons.1 hz
      have hadd : (r.add t.1 t.2).entries = r.entries ++ [t] := by
        rw [entries_add, addTerm_of_lt, ht]
        intro s hs
        exact (List.pairwise_append.1 h).2.2 s hs t List.mem_cons_self
      have hsplit : r.entries ++ t :: ts = (r.add t.1 t.2).entries ++ ts := by
        rw [hadd, List.append_assoc, List.singleton_append]
      rw [List.foldl_cons, ih _ (hsplit ▸ h) hts, hsplit]
  exact hall empty ts h hz

end Rows

section Columns

open Binary64 Mps

theorem Column.restored_column (d : Domain) (name : String) :
    (d.column name : Column Float).restored = d.column name := by
  obtain ⟨kind, range, flag⟩ := d
  cases range <;> rfl

theorem Mps.rereadColumn_column (d : Domain) (name : String) :
    rereadColumn (d.column name) = d.column name := by
  obtain ⟨kind, range, flag⟩ := d
  cases kind <;> cases range <;> rfl

theorem SumOfOnes.isCount {x : Float} (h : SumOfOnes x) : IsCount x := by
  induction h with
  | one =>
    have hone : (0 : Float) + 1 = 1 := IsCount.one.zero_add
    exact hone ▸ IsCount.one
  | add_one _ ih => exact ih.add_one

theorem Binary64.IsCount.ordinary {x : Float} (h : IsCount x) : Ordinary x := by
  refine ⟨h.isFinite, ?_⟩
  obtain ⟨n, hn, m, hm, -, hx⟩ := h
  have hpos : infinityThreshold.toModel.unpack =
      .finite .positive 7105427357601002 47 (by decide) := rfl
  have hneg : (-infinityThreshold).toModel.unpack =
      .finite .negative 7105427357601002 47 (by decide) := rfl
  have hlog : n.log2 < 54 := by
    by_cases h0 : n = 0
    · simp [h0]
    · exact (Nat.log2_lt h0).2 (by omega)
  -- no count comes near what stands for infinity
  have hexponent : compare ((n.log2 : Int) - 52) 47 = .lt := by
    rw [Int.compare_eq_lt]
    omega
  constructor
  · refine lt_of_compare ?_
    rw [hneg, hx]
    rfl
  · refine lt_of_compare ?_
    rw [hpos, hx]
    simp only [Float.Model.UnpackedFloat.compare, hexponent]
    rfl

namespace Mps

theorem share_cons_of_ne {t : Nat × Float} {j : Nat} (h : t.1 ≠ j) (ts : Terms Float) :
    share (t :: ts) j = share ts j := by
  rw [share, share, List.filter_cons_of_neg (by simpa using h)]

theorem share_eq_nil {ts : Terms Float} {j : Nat} (h : ∀ t ∈ ts, t.1 ≠ j) : share ts j = [] :=
  share_of_nil (List.filter_eq_nil_iff.2 fun t ht => by simpa using h t ht)

theorem share_cons_self {t : Nat × Float} {ts : Terms Float} (ht : IsCount t.2)
    (h : ∀ s ∈ ts, s.1 ≠ t.1) : share (t :: ts) t.1 = [t] := by
  have hfilter : ((t :: ts).filter fun s => s.1 = t.1) = [t] := by
    have hrest : (ts.filter fun s => s.1 = t.1) = [] :=
      List.filter_eq_nil_iff.2 fun s hs => by simpa using h s hs
    rw [List.filter_cons_of_pos (by simp), hrest]
  have hsum : (0 : Float) + t.2 = t.2 := ht.zero_add
  have hzero : (t.2 == 0) = false := ht.beq_zero
  rw [share_of_cons hfilter, List.foldl_cons, List.foldl_nil, hsum, ht.ordinary.clamp_eq, hzero]
  rfl

theorem flatMap_share {k n : Nat} {ts : Terms Float} (h : ts.Pairwise fun s t => s.1 < t.1)
    (hmem : ∀ t ∈ ts, k ≤ t.1 ∧ t.1 < k + n) (hc : ∀ t ∈ ts, IsCount t.2) :
    (List.range' k n).flatMap (share ts) = ts := by
  induction n generalizing k ts with
  | zero =>
    cases ts with
    | nil => rfl
    | cons t ts =>
      have := hmem t List.mem_cons_self
      omega
  | succ n ih =>
    rw [List.range'_succ, List.flatMap_cons]
    cases ts with
    | nil => exact ih .nil (List.forall_mem_nil _) (List.forall_mem_nil _)
    | cons t ts =>
      obtain ⟨ht, hts⟩ := List.pairwise_cons.1 h
      obtain ⟨hmt, hmts⟩ := List.forall_mem_cons.1 hmem
      obtain ⟨hct, hcts⟩ := List.forall_mem_cons.1 hc
      by_cases hk : t.1 = k
      · have hrest : (List.range' (k + 1) n).flatMap (share (t :: ts)) =
            (List.range' (k + 1) n).flatMap (share ts) := by
          refine List.flatMap_congr fun j hj => share_cons_of_ne ?_ ts
          have := List.mem_range'_1.1 hj
          omega
        rw [hrest, ih hts _ hcts, ← hk, share_cons_self hct fun s hs => (ht s hs).ne']
        · rfl
        · intro s hs
          have := ht s hs
          have := hmts s hs
          omega
      · have hlt : ∀ s ∈ t :: ts, k < s.1 := by
          refine List.forall_mem_cons.2 ⟨by omega, fun s hs => ?_⟩
          have := ht s hs
          omega
        rw [share_eq_nil fun s hs => (hlt s hs).ne', List.nil_append, ih h _ hc]
        intro s hs
        have := hlt s hs
        have := hmem s hs
        omega

theorem gathered_of_counts {ts : Terms Float} {n : Nat} (h : ts.Pairwise fun s t => s.1 < t.1)
    (hlt : ∀ t ∈ ts, t.1 < n) (hc : ∀ t ∈ ts, IsCount t.2) : gathered ts n = ts := by
  rw [gathered, List.range_eq_range']
  exact flatMap_share h (fun t ht => ⟨Nat.zero_le _, by simpa using hlt t ht⟩) hc

end Mps

end Columns

section Programs

open Binary64 Json

/-- The reader of numbers refuses none in the program, and finds those of its objective and of its
columns again. -/
structure Problem.Understood [NumberReader] (p : Problem Float) : Prop where
  legible : ∀ x ∈ p.numbers, Legible x
  objective : ∀ t ∈ p.objective.terms, ReadsBack t.2
  columns : ∀ c ∈ p.columns, ∀ x ∈ c.numbers, ReadsBack x

/-- The program comes back with its columns and its objective, and with as many rows. -/
structure Problem.Restores (p q : Problem α) : Prop where
  columns : q.columns = p.columns
  rows : q.constraints.length = p.constraints.length
  objective : q.objective.terms = p.objective.terms

theorem LinearRow.pairwise_offsetTerms [Scalar α] {row : LinearRow α} {n : Nat} (h : row.Within n) :
    row.offsetTerms.Pairwise fun s t => s.1 < t.1 := by
  refine List.pairwise_map.2 (row.increasing_terms.imp_of_mem fun {s t} hs _ hlt => ?_)
  have hpos := (h s (LinearRow.mem_terms.1 hs).1).1
  show s.1.offset < t.1.offset
  unfold ColumnId.offset
  omega

namespace Model.Tidy

variable {m : Model Float (ServiceBackend Float)}

theorem gathered_objective (h : m.Tidy) :
    Mps.gathered m.backend.problem.objective.terms m.backend.problem.columns.length =
      m.backend.problem.objective.terms := by
  rw [h.held]
  cases hrow : m.objective with
  | none => exact Mps.gathered_of_counts .nil (List.forall_mem_nil _) (List.forall_mem_nil _)
  | some row =>
    have hw := h.within row hrow
    refine Mps.gathered_of_counts (LinearRow.pairwise_offsetTerms hw) hw.lt_of_mem_offsetTerms ?_
    intro t ht
    obtain ⟨s, hs, rfl⟩ := List.mem_map.1 ht
    exact (h.ones row hrow s (LinearRow.mem_terms.1 hs).1).isCount

theorem map_columns (h : m.Tidy) {f : Column Float → Column Float}
    (hf : ∀ (d : Domain) (name : String), f (d.column name) = d.column name) :
    m.backend.problem.columns.map f = m.backend.problem.columns := by
  rw [h.columns, List.map_map]
  exact List.map_congr_left fun e _ => hf e.domain e.name

theorem restores [NumberReader] (h : m.Tidy)
    (hnd : (m.backend.problem.columns.map (·.name)).Nodup)
    (hb : ∀ c ∈ m.backend.problem.constraints, isFinite c.bound = true) {f : Format} {text : String}
    {q : Problem Float} (hread : f = .json → m.backend.problem.Understood)
    (he : Codec.encode f m.backend.problem = .ok text) (hd : Codec.decode f text = .ok q) :
    m.backend.problem.Restores q := by
  cases f with
  | json =>
    obtain rfl := Except.ok.inj he
    have hu := hread rfl
    have hp := Problem.ofJson?_read?_pretty fun x hx => (hu.legible x hx).readsAs
    simp only [Codec.decode, hp] at hd
    split at hd
    · rename_i hq
      cases hd
      split at hq
      · cases hq
        refine ⟨?_, by simp [Problem.restored, Problem.mapNumbers],
          Terms.map_eq_self fun t ht => (hu.objective t ht).reread_eq⟩
        show (m.backend.problem.columns.map Column.restored).map _ = _
        rw [h.map_columns Column.restored_column]
        refine (List.map_congr_left fun c hc => ?_).trans (List.map_id _)
        exact Column.mapNumbers_eq_self fun x hx => (hu.columns c hc x hx).reread_eq
      · cases hq
    · cases hd
  | freeMps =>
    -- the text has been read, so no name can have made a comment of its line
    have hr : m.backend.problem.Reloadable .freeMps := by
      by_contra hr
      obtain ⟨e, hfail⟩ := Problem.decode_of_not_reloadable hb he (fun h => absurd h (by decide)) hr
      rw [hd] at hfail
      cases hfail
    cases hw : Mps.write m.backend.problem with
    | error o => simp [Codec.encode, hw, Except.mapError] at he
    | ok written =>
      obtain rfl : written = text := by simpa [Codec.encode, hw, Except.mapError] using he
      have hread := Mps.read_write ⟨hnd, Mps.isWord_of_write hw, hr⟩ hw
      simp only [Codec.decode, hread, Except.mapError] at hd
      cases hd
      exact ⟨h.map_columns Mps.rereadColumn_column, by simp [Mps.reread], h.gathered_objective⟩

end Model.Tidy

end Programs

end LinearProgram
