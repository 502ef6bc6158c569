import LinearProgram.File.Codec
import LinearProgram.Proofs.MpsNumbers
import LinearProgram.Proofs.NativeRoundTrip

/-! A program that was read from a text in the one form, saved in the other. What stands for
infinity in the text is kept as an infinity in rows and in the bounds of fixed columns, and there
the native form has nothing to write for it. -/

namespace LinearProgram

open Binary64 Json

theorem Text.length_lines_le (cs : List Char) : (lines cs).length ≤ cs.length := by
  induction cs with
  | nil => exact Nat.le_refl _
  | cons c cs ih =>
    rw [lines]
    split
    · simpa using ih
    · cases hl : lines cs with
      | nil => simp
      | cons l ls =>
        rw [hl] at ih
        simpa using Nat.le_succ_of_le ih

namespace Mps

variable {P : Float → Prop} {text : String} {p : Problem Float}

theorem State.length_readLines {s : State} {n : Nat} {lines : List (List Char)}
    (h : s.readLines n lines = .ok p) :
    p.columns.length < s.names.length + lines.length := by
  induction lines generalizing s n with
  | nil => cases h
  | cons line rest ih =>
    rw [readLines] at h
    split at h
    · cases h
    · rename_i hline
      cases h
      rw [eq_of_readLine_done hline]
      simp [names]
    · rename_i s₁ hline
      have hrest := ih h
      -- a line adds one column at most
      rcases names_readLine hline with he | ⟨word, -, he⟩
      · rw [he] at hrest
        simp only [List.length_cons]
        omega
      · rw [he] at hrest
        simp only [List.length_append, List.length_cons, List.length_nil] at hrest ⊢
        omega

theorem length_columns_lt (h : read text = .ok p) : p.columns.length < text.length := by
  have hlines := State.length_readLines h
  have hlength := Text.length_lines_le text.toList
  rw [String.length_toList] at hlength
  simp only [State.names, List.map_nil, List.length_nil] at hlines
  omega

end Mps

namespace Problem

def FiniteRows (p : Problem Float) : Prop :=
  (∀ t ∈ p.objective.terms, isFinite t.2 = true) ∧
    ∀ c ∈ p.constraints, (∀ t ∈ c.terms, isFinite t.2 = true) ∧ isFinite c.bound = true

instance (p : Problem Float) : Decidable p.FiniteRows :=
  inferInstanceAs (Decidable (_ ∧ _))

def FiniteBounds (p : Problem Float) : Prop :=
  ∀ c ∈ p.columns, Mps.BoundsOf (isFinite · = true) c

instance (p : Problem Float) : Decidable p.FiniteBounds :=
  inferInstanceAs (Decidable (∀ c ∈ p.columns, _))

end Problem

theorem beq_filter_isFinite (x : Option Float) :
    (x.filter isFinite == x) = true ↔ ∀ y ∈ x, isFinite y = true := by
  cases x with
  | none => simp
  | some y =>
    cases hy : isFinite y with
    | false => simp [Option.filter, hy]
    | true =>
      have hself : (some y == some y) = true := beq_self hy
      simp [Option.filter, hy, hself]

theorem Column.beq_restored (c : Column Float) :
    (c.restored == c) = true ↔ Mps.BoundsOf (isFinite · = true) c := by
  rw [Mps.beq_column, restored]
  simp only [beq_filter_isFinite, Mps.BoundsOf, true_and, and_true]

namespace Terms

variable {P : Float → Prop} {n : Nat} {ts : Terms Float}

theorem storable_iff (h : Mps.TermsOver P n ts) (hn : n < UInt64.size) :
    ts.storable = true ↔ ∀ t ∈ ts, isFinite t.2 = true := by
  have hlt : ∀ t ∈ ts, t.1 < UInt64.size := fun t ht => (h t ht).1.trans hn
  rw [storable, List.all_eq_true]
  refine forall₂_congr fun t ht => ?_
  simp [hlt t ht]

theorem beq_self (h : ∀ t ∈ ts, isFinite t.2 = true) : (ts == ts) = true := by
  refine Mps.beq_of_forall fun t ht => ?_
  show (t.1 == t.1 && t.2 == t.2) = true
  rw [BEq.rfl, Binary64.beq_self (h t ht)]
  rfl

end Terms

namespace Mps.Regular

variable {P : Float → Prop} {p : Problem Float}

theorem storable_iff (h : Regular P p) (hn : p.columns.length < UInt64.size) :
    p.storable = true ↔ p.FiniteRows := by
  have hobjective := Terms.storable_iff h.objective hn
  have hrow (c) (hc : c ∈ p.constraints) : c.storable = true ↔
      (∀ t ∈ c.terms, isFinite t.2 = true) ∧ isFinite c.bound = true := by
    rw [Constraint.storable, Bool.and_eq_true, Terms.storable_iff (h.constraints c hc).1 hn]
  rw [Problem.storable, Bool.and_eq_true, List.all_eq_true, hobjective, forall₂_congr hrow,
    Problem.FiniteRows]

theorem beq_restored_iff (h : Regular P p) (hf : p.FiniteRows) :
    (p.restored == p) = true ↔ p.FiniteBounds := by
  have hobjective : (p.objective == p.objective) = true := by
    show (p.objective.direction == p.objective.direction &&
      p.objective.terms == p.objective.terms) = true
    rw [BEq.rfl, Terms.beq_self hf.1]
    rfl
  have hconstraints : (p.constraints == p.constraints) = true := by
    refine beq_of_forall fun c hc => ?_
    obtain ⟨hterms, hbound⟩ := hf.2 c hc
    show (c.sense == c.sense && (c.terms == c.terms && (c.bound == c.bound &&
      c.name == c.name))) = true
    rw [BEq.rfl, Terms.beq_self hterms, Binary64.beq_self hbound, BEq.rfl]
    rfl
  have hcolumns : (p.columns.map Column.restored == p.columns) = true ↔ p.FiniteBounds :=
    map_beq.trans (forall₂_congr fun c _ => c.beq_restored)
  rw [← hcolumns]
  show (p.name == p.name && (p.objective == p.objective && (p.constraints == p.constraints &&
    (p.columns.map Column.restored == p.columns && p.config.restored == p.config)))) = true ↔ _
  have hconfig : (({} : Config Float).restored == {}) = true := rfl
  rw [hobjective, hconstraints, h.config, hconfig, BEq.rfl]
  simp

theorem restored_eq (h : Regular Ordinary p) : p.restored = p := by
  have hfilter (x : Option Float) (hx : ∀ y ∈ x, Ordinary y) : x.filter isFinite = x := by
    cases x with
    | none => rfl
    | some y => simp [Option.filter, (hx y rfl).1]
  have hcolumn (c) (hc : c ∈ p.columns) : c.restored = c := by
    obtain ⟨hl, hu⟩ := h.bounds c hc
    rw [Column.restored, hfilter _ hl, hfilter _ hu]
  have hcolumns : p.columns.map Column.restored = p.columns := by
    rw [List.map_congr_left hcolumn, List.map_id']
  have hconfig : p.config.restored = p.config := by
    rw [h.config]
    rfl
  rw [Problem.restored, hcolumns, hconfig]

theorem finiteRows (h : Regular Ordinary p) : p.FiniteRows := by
  have hfinite {ts : Terms Float} (ht : TermsOver Ordinary p.columns.length ts) :
      ∀ t ∈ ts, isFinite t.2 = true := fun t hm => (ht t hm).2.2.1
  refine ⟨hfinite h.objective, fun c hc => ?_⟩
  obtain ⟨hterms, hbound⟩ := h.constraints c hc
  exact ⟨hfinite hterms, hbound.1⟩

end Mps.Regular

theorem Problem.decode_encode_json [NumberReader] {p : Problem Float}
    (hread : ∀ x ∈ p.numbers, ReadsBack x) :
    ∃ written, Codec.encode .json p = .ok written ∧
      ∀ q : Problem Float, Codec.decode .json written = .ok q ↔ p.storable = true ∧ q = p.restored := by
  refine ⟨p.toJson.pretty, rfl, fun q => ?_⟩
  have hp := ofJson?_read?_pretty fun x hx => (hread x hx).readsAs
  rw [mapNumbers_id] at hp
  simp only [Codec.decode, hp]
  cases p.storable with
  | false => simp
  | true => simp [eq_comm]

/-- A program that was read from a text can be saved in the native form. It is loaded again just
when no number in its rows stands for infinity, and as the same program just when no bound does. -/
theorem Mps.native_of_read [NumberReader] {text : String} {p : Problem Float}
    (hr : read text = .ok p) (ht : text.length ≤ UInt64.size)
    (hread : ∀ x ∈ p.numbers, ReadsBack x) :
    ∃ written, Codec.encode .json p = .ok written ∧
      ((∃ q : Problem Float, Codec.decode .json written = .ok q) ↔ p.FiniteRows) ∧
      ((∃ q : Problem Float, Codec.decode .json written = .ok q ∧ (q == p) = true) ↔
        p.FiniteRows ∧ p.FiniteBounds) ∧
      ((∀ x ∈ numbers text, Ordinary x) → Codec.decode .json written = .ok p) := by
  have hn : p.columns.length < UInt64.size := (length_columns_lt hr).trans_le ht
  have hall : Regular (fun _ => True) p := regular_of_read trivial trivial (fun _ _ => trivial) hr
  have hstorable := hall.storable_iff hn
  obtain ⟨written, he, hd⟩ := Problem.decode_encode_json hread
  refine ⟨written, he, ⟨fun ⟨q, hq⟩ => ?_, fun hf => ?_⟩, ⟨fun ⟨q, hq, hqp⟩ => ?_, fun ⟨hf, hb⟩ => ?_⟩,
    fun hnumbers => ?_⟩
  · exact hstorable.1 ((hd q).1 hq).1
  · exact ⟨p.restored, (hd _).2 ⟨hstorable.2 hf, rfl⟩⟩
  · obtain ⟨hs, rfl⟩ := (hd q).1 hq
    have hf := hstorable.1 hs
    exact ⟨hf, (hall.beq_restored_iff hf).1 hqp⟩
  · exact ⟨p.restored, (hd _).2 ⟨hstorable.2 hf, rfl⟩, (hall.beq_restored_iff hf).2 hb⟩
  · have h := regular_of_ordinary hnumbers hr
    exact (hd p).2 ⟨hstorable.2 h.finiteRows, h.restored_eq.symm⟩

/-- A column that is fixed at what stands for infinity. -/
def Mps.pinned : String :=
  "ROWS\n N obj\n L row\nCOLUMNS\n x row 1\nBOUNDS\n FX b x 1e30\nENDATA\n"

theorem Mps.native_of_read_pinned :
    ∃ p written, read pinned = .ok p ∧ pinned.length ≤ UInt64.size ∧
      (∀ x ∈ p.numbers, ReadsBack x) ∧ Codec.encode .json p = .ok written ∧
      (∃ q : Problem Float, Codec.decode .json written = .ok q) ∧
      ¬ ∃ q : Problem Float, Codec.decode .json written = .ok q ∧ (q == p) = true := by
  have hlength : pinned.length ≤ UInt64.size := by decide
  obtain ⟨p, hp, hrows, hbounds, hread⟩ :
      ∃ p ∈ (read pinned).toOption,
        p.FiniteRows ∧ ¬ p.FiniteBounds ∧ ∀ x ∈ p.numbers, ReadsBack x := by
    decide +kernel
  have hr : read pinned = .ok p := eq_ok_of_mem_toOption hp
  obtain ⟨written, he, hloads, hsame, -⟩ := native_of_read hr hlength hread
  exact ⟨p, written, hr, hlength, hread, he, hloads.2 hrows, fun h => hbounds (hsame.1 h).2⟩

end LinearProgram
