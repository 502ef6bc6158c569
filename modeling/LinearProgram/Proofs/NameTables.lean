import Mathlib.Data.List.AList
import LinearProgram.Proofs.VariableNames

/-! A table of the columns by name, kept beside the variables of a model. Whatever is called, the
table finds the variable that a search through all of them finds. -/

namespace LinearProgram

variable {α : Type}

abbrev NameTable := AList fun _ : String => ColumnId

/-- The table of variables that come in this order. A name that comes again takes its place over. -/
def NameTable.ofEntries (es : List (VariableInfo α)) : NameTable :=
  es.zipIdx.foldl (fun t e => t.insert e.1.name (.ofOffset e.2)) ∅

namespace Registry

variable {r : Registry α} {t : NameTable}

/-- The table has been kept through all that was done with the variables. -/
inductive Tabled : Registry α → NameTable → Prop
  | new (model : ModelId) : Tabled { model } ∅
  | count {r : Registry α} {t : NameTable} (n : Nat) (h : Tabled r t) :
      Tabled { r with anonymous := n } t
  | insert {r : Registry α} {t : NameTable} (info : VariableInfo α) (h : Tabled r t) :
      Tabled (r.insert info) (t.insert info.name r.nextColumn)
  | reset {r : Registry α} {t : NameTable} (es : List (VariableInfo α)) (h : Tabled r t) :
      Tabled (r.reset es) (.ofEntries es)

def FoundBy (r : Registry α) (t : NameTable) : Prop :=
  ∀ name, r.named? name = (t.lookup name).map r.handle

theorem named?_insert (r : Registry α) (info : VariableInfo α) (name : String) :
    (r.insert info).named? name =
      if info.name = name then some (r.handle r.nextColumn) else r.named? name := by
  simp only [named?, insert, List.zipIdx_append, List.reverse_append, List.zipIdx_singleton,
    List.reverse_singleton, List.singleton_append, List.find?_cons]
  by_cases h : info.name = name
  · simp [h, handle, nextColumn]
  · simp [h, handle]

theorem FoundBy.insert (h : r.FoundBy t) (info : VariableInfo α) :
    (r.insert info).FoundBy (t.insert info.name r.nextColumn) := by
  intro name
  rw [named?_insert]
  by_cases hn : info.name = name
  · subst hn
    rw [if_pos rfl, AList.lookup_insert]
    rfl
  · rw [if_neg hn, AList.lookup_insert_ne (Ne.symm hn)]
    exact h name

theorem foundBy_ofEntries (r : Registry α) : r.FoundBy (.ofEntries r.entries) := by
  obtain ⟨model, generation, entries, anonymous⟩ := r
  induction entries using List.reverseRecOn with
  | nil => exact fun _ => rfl
  | append_singleton es e ih =>
    have hinsert := ih.insert e
    rw [NameTable.ofEntries, List.zipIdx_append, List.foldl_append, Nat.zero_add]
    exact hinsert

theorem Tabled.foundBy (h : Tabled r t) : r.FoundBy t := by
  induction h with
  | new model => exact fun _ => rfl
  | count n h ih => exact ih
  | insert info h ih => exact ih.insert info
  | reset es h ih => exact foundBy_ofEntries (_ : Registry α)

theorem Tabled.isTaken_eq (h : Tabled r t) (name : String) :
    r.isTaken name = (t.lookup name).isSome := by
  have hnone : r.named? name = none ↔ t.lookup name = none := by
    rw [h.foundBy name, Option.map_eq_none_iff]
  rw [Bool.eq_iff_iff, isTaken_iff, Option.isSome_iff_ne_none, ne_eq, ← hnone, named?_eq_none_iff,
    not_not]

end Registry

section Sessions

variable [Scalar α] {m m' : Model α (ServiceBackend α)} {t : NameTable}

theorem Plan.tabled_outcome (h : m.registry.Tabled t) (p : Plan α) :
    ∃ t', (p.outcome m).registry.Tabled t' := by
  cases p with
  | column p =>
    have hplaced : (p.place m).registry.Tabled _ := (h.count p.anonymous).insert p.info
    rw [Plan.outcome]
    cases p.row with
    | none => exact ⟨_, hplaced⟩
    | some row => exact ⟨_, hplaced⟩
  | relation a b sense => exact ⟨t, h⟩
  | objective row => exact ⟨t, h⟩

variable [Codec α]

theorem Model.Moves.tabled {a : Action α} {r : Except (ModelError α) (Answer α)}
    (hm : m.Moves a r m') (h : m.registry.Tabled t) : ∃ t', m'.registry.Tabled t' := by
  cases hm with
  | built => exact Plan.tabled_outcome h _
  | stranded => exact ⟨t, h.count _⟩
  | loaded => exact ⟨_, h.reset _⟩
  | turnedAway | solved | unsolved | saved | unsaved | unloaded | asked => exact ⟨t, h⟩

variable [ZeroIsNumber α]

theorem Model.Balanced.tabled_after (hb : m.Balanced) (h : m.registry.Tabled t)
    (as : List (Action α)) : ∃ t', (m.after as).registry.Tabled t' := by
  induction as generalizing m t with
  | nil => exact ⟨t, h⟩
  | cons a as ih =>
    have hm := moves hb.inStep a
    obtain ⟨t', h'⟩ := hm.tabled h
    exact ih (hm.balanced hb) h'

/-- In every session a table that is kept along finds each variable by its name, and tells which
names are taken. -/
theorem Model.exists_table_after (id : ModelId) (service : SolverService α) (config : Config α)
    (events : List Event) (as : List (Action α)) :
    let m := (Model.fresh id service config events).after as
    ∃ t, m.registry.Tabled t ∧
      ∀ name, m.find? name = (t.lookup name).map m.registry.handle ∧
        m.registry.isTaken name = (t.lookup name).isSome := by
  intro m
  have hb : (Model.fresh id service config events).Balanced :=
    (InStep.fresh id service config events).balanced
  obtain ⟨t, h⟩ := hb.tabled_after (.new id) as
  exact ⟨t, h, fun name => ⟨h.foundBy name, h.isTaken_eq name⟩⟩

end Sessions

end LinearProgram
