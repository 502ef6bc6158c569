import LinearProgram.Proofs.Bookkeeping

/-! Handles, while several models take calls in turn. Between two loads a registry only grows, and
a load starts another generation, so a handle stands for one variable of one model or for none. -/

namespace LinearProgram

variable {α β : Type}

namespace Registry

/-- The variables from before are still there, and nothing has been loaded. -/
structure Extends (r r' : Registry α) : Prop where
  model : r'.model = r.model
  generation : r'.generation = r.generation
  entries : r.entries <+: r'.entries

variable {r r' r'' : Registry α} {v w : Variable}

theorem Extends.refl (r : Registry α) : r.Extends r :=
  ⟨rfl, rfl, List.prefix_rfl⟩

theorem Extends.trans (h : r.Extends r') (h' : r'.Extends r'') : r.Extends r'' where
  model := h'.model.trans h.model
  generation := h'.generation.trans h.generation
  entries := h.entries.trans h'.entries

theorem Extends.resolve (h : r.Extends r') {c : ColumnId} (hv : r.resolve v = .ok c) :
    r'.resolve v = .ok c := by
  obtain ⟨hm, hg, hc, hpos, hlt⟩ := resolve_eq_ok_iff.1 hv
  have hle : r.entries.length ≤ r'.entries.length := h.entries.length_le
  exact resolve_eq_ok_iff.2
    ⟨hm.trans h.model.symm, hg.trans h.generation.symm, hc, hpos, hlt.trans_le hle⟩

theorem Extends.info (h : r.Extends r') {i : VariableInfo α} (hv : r.info v = .ok i) :
    r'.info v = .ok i := by
  obtain ⟨hr, hi⟩ := info_eq_ok_iff.1 hv
  obtain ⟨rest, he⟩ := h.entries
  have hlt := (List.getElem?_eq_some_iff.1 hi).1
  refine info_eq_ok_iff.2 ⟨h.resolve hr, ?_⟩
  rw [← he, List.getElem?_append_left hlt, hi]

theorem resolve_of_model_ne (h : v.model ≠ r.model) : r.resolve v = .error .foreignVariable := by
  rw [resolve, if_pos h]

theorem resolve_of_generation_ne (hm : v.model = r.model) (hg : v.generation ≠ r.generation) :
    r.resolve v = .error (.staleVariable v.column) := by
  rw [resolve, if_neg (not_not.2 hm), if_pos (.inl hg)]

theorem info_of_error {e : ModelError α} (h : r.resolve v = .error e) : r.info v = .error e := by
  rw [info, h]
  rfl

theorem eq_of_resolve {c : ColumnId} (hv : r.resolve v = .ok c) (hw : r.resolve w = .ok c) :
    v = w := by
  obtain ⟨hm, hg, hc, -⟩ := resolve_eq_ok_iff.1 hv
  obtain ⟨hm', hg', hc', -⟩ := resolve_eq_ok_iff.1 hw
  cases v
  cases w
  simp_all

theorem mem_handles_iff : v ∈ r.handles ↔ r.resolve v = .ok v.column := by
  rw [resolve_eq_ok_iff, handles, List.mem_map]
  constructor
  · rintro ⟨k, hk, rfl⟩
    simpa [handle, ColumnId.ofOffset, ColumnId.offset] using hk
  · rintro ⟨hm, hg, -, hpos, hlt⟩
    refine ⟨v.column.offset, List.mem_range.2 hlt, ?_⟩
    obtain ⟨model, generation, ⟨number⟩⟩ := v
    simp_all [handle, ColumnId.ofOffset, ColumnId.offset]
    omega

theorem mem_handles_of_named? {name : String} (h : r.named? name = some v) : v ∈ r.handles := by
  obtain ⟨e, he, rfl⟩ := Option.map_eq_some_iff.1 h
  have hmem : e ∈ r.entries.zipIdx := List.mem_reverse.1 (List.mem_of_find?_eq_some he)
  have hlt := List.snd_lt_of_mem_zipIdx hmem
  refine List.mem_map.2 ⟨e.2, List.mem_range.2 ?_, rfl⟩
  simpa using hlt

/-- Every handle that is given out has something to tell. -/
theorem exists_info (h : r.resolve v = .ok v.column) : ∃ i, r.info v = .ok i := by
  have hlt := (resolve_eq_ok_iff.1 h).2.2.2.2
  exact ⟨r.entries[v.column.offset], info_eq_ok_iff.2 ⟨h, List.getElem?_eq_getElem hlt⟩⟩

end Registry

section Sessions

variable [Scalar α] {m m' : Model α (ServiceBackend α)}

theorem Plan.extends_outcome (m : Model α (ServiceBackend α)) (p : Plan α) :
    m.registry.Extends (p.outcome m).registry := by
  cases p with
  | column p =>
    have hplaced : m.registry.Extends (p.place m).registry :=
      ⟨rfl, rfl, List.prefix_append _ _⟩
    rw [Plan.outcome]
    cases p.row with
    | none => exact hplaced
    | some t => exact hplaced
  | relation a b sense => exact .refl _
  | objective row => exact .refl _

variable [Codec α] {a : Action α} {r : Except (ModelError α) (Answer α)}

theorem Model.Moves.extends (hm : m.Moves a r m') (hr : loads (a, r) = false) :
    m.registry.Extends m'.registry := by
  cases hm with
  | turnedAway | solved | unsolved | saved | unsaved | unloaded | asked => exact .refl _
  | built => exact Plan.extends_outcome m _
  | stranded => exact ⟨rfl, rfl, List.prefix_rfl⟩
  | loaded => cases hr

theorem Model.Moves.id_eq (hm : m.Moves a r m') : m'.id = m.id := by
  cases hm with
  | built => exact (Plan.extends_outcome m _).model
  | _ => rfl

theorem Model.Moves.generation_le (hm : m.Moves a r m') :
    m.registry.generation ≤ m'.registry.generation := by
  cases hm with
  | built => exact (Plan.extends_outcome m _).generation.ge
  | loaded => exact Nat.le_succ _
  | _ => exact Nat.le_refl _

namespace Model

theorem generation_after_of_loads (hl : loads (a, a.answer m) = true) :
    (a.after m).registry.generation = m.registry.generation + 1 := by
  obtain ⟨path, files, rfl⟩ := exists_load_of_loads hl
  have hm := m.moves_load path files
  generalize (Action.load path files).answer m = answer at hm hl
  generalize (Action.load path files).after m = m' at hm
  cases hm with
  | loaded => rfl
  | turnedAway | unloaded => cases hl

variable [ZeroIsNumber α]

theorem id_after (h : m.Balanced) (as : List (Action α)) : (m.after as).id = m.id := by
  induction as generalizing m with
  | nil => rfl
  | cons a as ih =>
    have hm := moves h.inStep a
    rw [after_cons, ih (hm.balanced h), hm.id_eq]

theorem generation_le_after (h : m.Balanced) (as : List (Action α)) :
    m.registry.generation ≤ (m.after as).registry.generation := by
  induction as generalizing m with
  | nil => exact Nat.le_refl _
  | cons a as ih =>
    have hm := moves h.inStep a
    exact hm.generation_le.trans (ih (hm.balanced h))

theorem extends_after (h : m.Balanced) {as : List (Action α)}
    (has : ∀ c ∈ m.history as, loads c = false) :
    m.registry.Extends (m.after as).registry := by
  induction as generalizing m with
  | nil => exact .refl _
  | cons a as ih =>
    obtain ⟨ha, has⟩ := List.forall_mem_cons.1 has
    have hm := moves h.inStep a
    exact (hm.extends ha).trans (ih (hm.balanced h) has)

theorem generation_lt_after (h : m.Balanced) {as : List (Action α)}
    (has : ∃ c ∈ m.history as, loads c = true) :
    m.registry.generation < (m.after as).registry.generation := by
  induction as generalizing m with
  | nil =>
    obtain ⟨c, hc, -⟩ := has
    exact absurd hc List.not_mem_nil
  | cons a as ih =>
    have hm := moves h.inStep a
    have hb := hm.balanced h
    rw [history, List.exists_mem_cons_iff] at has
    rcases has with ha | has
    · have hnext := generation_after_of_loads ha
      have hle := generation_le_after hb as
      rw [after_cons]
      omega
    · exact hm.generation_le.trans_lt (ih hb has)

/-- The handle that a call gives back is the next one of its model. -/
theorem made_of_answer (h : m.poisoned = false → m.InStep) {v : Variable}
    (ha : a.answer m = .ok (.made v)) : v = m.newHandle ∧ v ∈ (a.after m).handles := by
  have hm := moves h a
  rw [ha] at hm
  generalize hr : (Except.ok (Answer.made v) : Except (ModelError α) _) = answer at hm
  generalize a.after m = m' at hm
  cases hm with
  | @built i p isOpen plan sound call =>
    have hanswer := Except.ok.inj hr
    cases p with
    | column p =>
      obtain rfl := Answer.made.inj hanswer
      refine ⟨rfl, Registry.mem_handles_iff.2 ?_⟩
      have hlength : m.registry.entries.length <
          ((Plan.column p).outcome m).registry.entries.length := by
        have hplaced : m.registry.entries.length < (p.place m).registry.entries.length := by
          simp [Draft.place, grow, Registry.insert]
        rw [Plan.outcome]
        cases p.row with
        | none => exact hplaced
        | some t => exact hplaced
      have hext := Plan.extends_outcome m (Plan.column p)
      exact Registry.resolve_eq_ok_iff.2 ⟨hext.model.symm, hext.generation.symm, rfl,
        Nat.succ_ne_zero _, hlength⟩
    | relation => cases hanswer
    | objective => cases hanswer
  | @asked u =>
    rw [Action.answer, Action.call, Call.ask] at ha
    cases hx : m.value u with
    | ok x => simp [hx, Except.map] at ha
    | error e => simp [hx, Except.map] at ha
  | turnedAway | stranded | solved | unsolved | saved | unsaved | loaded | unloaded => cases hr

end Model

end Sessions

/-- A call on the model at a place. -/
structure Turn (α : Type) where
  place : Nat
  action : Action α

/-- The calls on one of the models. -/
def callsAt (i : Nat) (ts : List (Turn α)) : List (Action α) :=
  (ts.filter fun t => t.place = i).map Turn.action

section Turns

variable [Scalar α] [Backend α β]

def Turn.take (t : Turn α) (ms : List (Model α β)) : List (Model α β) :=
  ms.modify t.place t.action.after

/-- Several models, after the calls that they have taken in turn. -/
def interleave (ms : List (Model α β)) (ts : List (Turn α)) : List (Model α β) :=
  ts.foldl (fun ms t => t.take ms) ms

/-- The calls in the order in which they came, each with its answer. -/
def record (ms : List (Model α β)) : List (Turn α) →
    List (Turn α × Except (ModelError α) (Answer α))
  | [] => []
  | t :: ts =>
    ms[t.place]?.toList.map (fun m => (t, t.action.answer m)) ++ record (t.take ms) ts

/-- A model gives out handles for the variables it makes, for all that it lists, and for those it
finds by their names. -/
inductive Issued (ms : List (Model α β)) (i : Nat) : List (Turn α) → Variable → Prop
  | made {ts : List (Turn α)} {a : Action α} {m : Model α β} {v : Variable}
      (model : (interleave ms ts)[i]? = some m) (answer : a.answer m = .ok (.made v)) :
      Issued ms i (ts ++ [⟨i, a⟩]) v
  | listed {ts : List (Turn α)} {m : Model α β} {v : Variable}
      (model : (interleave ms ts)[i]? = some m) (listed : v ∈ m.handles) : Issued ms i ts v
  | found {ts : List (Turn α)} {m : Model α β} {name : String} {v : Variable}
      (model : (interleave ms ts)[i]? = some m) (found : m.find? name = some v) : Issued ms i ts v

variable {ms : List (Model α β)} {m : Model α β} {i : Nat}

theorem interleave_append (ms : List (Model α β)) (ts us : List (Turn α)) :
    interleave ms (ts ++ us) = interleave (interleave ms ts) us :=
  List.foldl_append

theorem getElem?_take (t : Turn α) (ms : List (Model α β)) (i : Nat) :
    (t.take ms)[i]? = ms[i]?.map fun m => if t.place = i then t.action.after m else m := by
  rw [Turn.take, List.getElem?_modify]
  by_cases h : t.place = i
  · simp [h]
  · simp [h]

/-- Each model goes its own way, whatever is called on the others. -/
theorem getElem?_interleave (ms : List (Model α β)) (ts : List (Turn α)) (i : Nat) :
    (interleave ms ts)[i]? = ms[i]?.map fun m => m.after (callsAt i ts) := by
  induction ts generalizing ms with
  | nil => simp [interleave, callsAt]
  | cons t ts ih =>
    show (interleave (t.take ms) ts)[i]? = _
    rw [ih, getElem?_take, Option.map_map]
    congr 1
    funext m
    by_cases h : t.place = i
    · simp [callsAt, h]
    · simp [callsAt, h]

theorem mem_record_iff (hm : ms[i]? = some m) {ts : List (Turn α)} {a : Action α}
    {r : Except (ModelError α) (Answer α)} :
    (⟨i, a⟩, r) ∈ record ms ts ↔ (a, r) ∈ m.history (callsAt i ts) := by
  induction ts generalizing ms m with
  | nil => simp [record, callsAt, Model.history]
  | cons t ts ih =>
    have htake : (t.take ms)[i]? = some (if t.place = i then t.action.after m else m) := by
      rw [getElem?_take, hm]
      rfl
    have hrest := ih htake
    obtain ⟨place, action⟩ := t
    rw [record, List.mem_append, hrest]
    by_cases h : place = i
    · subst h
      simp [hm, callsAt, Model.history]
    · have hne : i ≠ place := fun hi => h hi.symm
      cases ms[place]? <;> simp [callsAt, h, hne]

/-- Whether the model at a place has taken in another program. -/
def Reloaded (ms : List (Model α β)) (i : Nat) (ts : List (Turn α)) : Prop :=
  ∃ c ∈ record ms ts, c.1.place = i ∧ loads (c.1.action, c.2) = true

instance (ms : List (Model α β)) (i : Nat) (ts : List (Turn α)) : Decidable (Reloaded ms i ts) :=
  inferInstanceAs (Decidable (∃ c ∈ record ms ts, _))

theorem reloaded_iff (hm : ms[i]? = some m) {ts : List (Turn α)} :
    Reloaded ms i ts ↔ ∃ c ∈ m.history (callsAt i ts), loads c = true := by
  constructor
  · rintro ⟨⟨⟨place, a⟩, r⟩, hc, rfl, hl⟩
    exact ⟨(a, r), (mem_record_iff hm).1 hc, hl⟩
  · rintro ⟨⟨a, r⟩, hc, hl⟩
    exact ⟨(⟨i, a⟩, r), (mem_record_iff hm).2 hc, rfl, hl⟩

end Turns

section Several

variable [Scalar α] [Codec α] [ZeroIsNumber α] {ms : List (Model α (ServiceBackend α))}
  {m n : Model α (ServiceBackend α)} {i j : Nat} {ts us : List (Turn α)} {v w : Variable}

theorem balanced_interleave (h : ∀ m ∈ ms, m.Balanced) (hn : (interleave ms ts)[i]? = some n) :
    n.Balanced := by
  rw [getElem?_interleave] at hn
  obtain ⟨m, hm, rfl⟩ := Option.map_eq_some_iff.1 hn
  exact (h m (List.mem_of_getElem? hm)).after _

theorem Issued.exists_mem_handles (h : ∀ m ∈ ms, m.Balanced) (hv : Issued ms i ts v) :
    ∃ m, (interleave ms ts)[i]? = some m ∧ v ∈ m.handles := by
  cases hv with
  | @made ts a m v hm ha =>
    have hmade := Model.made_of_answer (balanced_interleave h hm).inStep ha
    refine ⟨a.after m, ?_, hmade.2⟩
    rw [interleave_append]
    show ((Turn.mk i a).take (interleave ms ts))[i]? = _
    rw [getElem?_take, hm]
    simp
  | listed hm hl => exact ⟨_, hm, hl⟩
  | found hm hf => exact ⟨_, hm, Registry.mem_handles_of_named? hf⟩

theorem id_interleave (h : ∀ m ∈ ms, m.Balanced) (hn : (interleave ms ts)[i]? = some n) :
    (ms.map Model.id)[i]? = some n.id := by
  rw [getElem?_interleave] at hn
  obtain ⟨m, hm, rfl⟩ := Option.map_eq_some_iff.1 hn
  have hb := h m (List.mem_of_getElem? hm)
  rw [List.getElem?_map, hm, Option.map_some, Model.id_after hb]

theorem id_ne_of_place_ne (h : ∀ m ∈ ms, m.Balanced) (hid : (ms.map Model.id).Nodup)
    (hm : (interleave ms ts)[i]? = some m) (hn : (interleave ms us)[j]? = some n) (hij : j ≠ i) :
    m.id ≠ n.id := by
  have hi := id_interleave h hm
  have hj := id_interleave h hn
  have hlt := (List.getElem?_eq_some_iff.1 hi).1
  intro he
  rw [he, ← hj] at hi
  exact hij ((List.getElem?_inj hlt hid).1 hi).symm

/-- What becomes of the model at a place. -/
theorem interleave_later (h : ∀ m ∈ ms, m.Balanced) (hm : (interleave ms ts)[i]? = some m)
    (hn : (interleave ms (ts ++ us))[i]? = some n) :
    m.Balanced ∧ n = m.after (callsAt i us) := by
  rw [interleave_append, getElem?_interleave, hm] at hn
  exact ⟨balanced_interleave h hm, (Option.some.inj hn).symm⟩

theorem extends_of_not_reloaded (h : ∀ m ∈ ms, m.Balanced) (hm : (interleave ms ts)[i]? = some m)
    (hn : (interleave ms (ts ++ us))[i]? = some n) (hr : ¬ Reloaded (interleave ms ts) i us) :
    m.registry.Extends n.registry := by
  obtain ⟨hb, rfl⟩ := interleave_later h hm hn
  refine Model.extends_after hb fun c hc => ?_
  rw [reloaded_iff hm] at hr
  by_contra hl
  exact hr ⟨c, hc, by simpa using hl⟩

theorem generation_lt_of_reloaded (h : ∀ m ∈ ms, m.Balanced) (hm : (interleave ms ts)[i]? = some m)
    (hn : (interleave ms (ts ++ us))[i]? = some n) (hr : Reloaded (interleave ms ts) i us) :
    m.registry.generation < n.registry.generation := by
  obtain ⟨hb, rfl⟩ := interleave_later h hm hn
  exact Model.generation_lt_after hb ((reloaded_iff hm).1 hr)

theorem stale_of_reloaded (h : ∀ m ∈ ms, m.Balanced) (hm : (interleave ms ts)[i]? = some m)
    (hv : m.registry.resolve v = .ok v.column) (hn : (interleave ms (ts ++ us))[i]? = some n)
    (hr : Reloaded (interleave ms ts) i us) :
    n.registry.resolve v = .error (.staleVariable v.column) := by
  have hlt := generation_lt_of_reloaded h hm hn hr
  obtain ⟨hb, rfl⟩ := interleave_later h hm hn
  obtain ⟨hmodel, hgeneration, -⟩ := Registry.resolve_eq_ok_iff.1 hv
  have hid : (m.after (callsAt i us)).id = m.id := Model.id_after hb _
  exact Registry.resolve_of_generation_ne (hmodel.trans hid.symm) (by omega)

theorem foreign_of_place_ne (h : ∀ m ∈ ms, m.Balanced) (hid : (ms.map Model.id).Nodup)
    (hm : (interleave ms ts)[i]? = some m) (hv : m.registry.resolve v = .ok v.column)
    (hn : (interleave ms us)[j]? = some n) (hij : j ≠ i) :
    n.registry.resolve v = .error .foreignVariable := by
  have hmodel := (Registry.resolve_eq_ok_iff.1 hv).1
  have hne := id_ne_of_place_ne h hid hm hn hij
  exact Registry.resolve_of_model_ne (hmodel ▸ hne)

/-- The next handle of a model is none that any model has given out before. -/
theorem newHandle_ne (h : ∀ m ∈ ms, m.Balanced) (hid : (ms.map Model.id).Nodup)
    (hm : (interleave ms ts)[i]? = some m) (hv : m.registry.resolve v = .ok v.column)
    (hn : (interleave ms (ts ++ us))[j]? = some n) : n.newHandle ≠ v := by
  rintro rfl
  by_cases hij : j = i
  · subst hij
    by_cases hr : Reloaded (interleave ms ts) j us
    · have hlt := generation_lt_of_reloaded h hm hn hr
      have hgeneration : n.registry.generation = _ := (Registry.resolve_eq_ok_iff.1 hv).2.1
      omega
    · have hv := (extends_of_not_reloaded h hm hn hr).resolve hv
      have hlt : n.registry.entries.length < n.registry.entries.length :=
        (Registry.resolve_eq_ok_iff.1 hv).2.2.2.2
      omega
  · have hmodel : n.id = m.id := (Registry.resolve_eq_ok_iff.1 hv).1
    exact id_ne_of_place_ne h hid hm hn hij hmodel.symm

/-- A handle stands for one variable of the model that gave it out, until this model takes in
another program, and tells the same of it all the while. Elsewhere it is foreign, and afterwards it
is stale, and no call gives it back a second time. -/
theorem handles_never_alias
    (hnew : ∀ m ∈ ms, ∃ id service config events, m = Model.fresh id service config events)
    (hid : (ms.map Model.id).Nodup) (hv : Issued ms i ts v) :
    ∃ m info, (interleave ms ts)[i]? = some m ∧ m.info v = .ok info ∧
      ∀ us j n, (interleave ms (ts ++ us))[j]? = some n →
        ((∃ c, n.registry.resolve v = .ok c) ↔ j = i ∧ ¬ Reloaded (interleave ms ts) i us) ∧
        (∀ c, n.registry.resolve v = .ok c → c = v.column ∧ n.info v = .ok info) ∧
        (j ≠ i →
          n.registry.resolve v = .error .foreignVariable ∧ n.info v = .error .foreignVariable) ∧
        (j = i → Reloaded (interleave ms ts) i us →
          n.registry.resolve v = .error (.staleVariable v.column) ∧
            n.info v = .error (.staleVariable v.column)) ∧
        (∀ w, Issued ms i (ts ++ us) w → ¬ Reloaded (interleave ms ts) i us →
          (v = w ↔ v.column = w.column)) ∧
        ∀ (a : Action α) (w : Variable), a.answer n = .ok (.made w) → w ≠ v := by
  have h : ∀ m ∈ ms, m.Balanced := by
    intro m hm
    obtain ⟨id, service, config, events, rfl⟩ := hnew m hm
    exact (Model.InStep.fresh id service config events).balanced
  obtain ⟨m, hm, hmem⟩ := hv.exists_mem_handles h
  have hv : m.registry.resolve v = .ok v.column := Registry.mem_handles_iff.1 hmem
  obtain ⟨info, hinfo⟩ := Registry.exists_info hv
  have hkept {us : List (Turn α)} {n : Model α (ServiceBackend α)}
      (hn : (interleave ms (ts ++ us))[i]? = some n) (hr : ¬ Reloaded (interleave ms ts) i us) :
      n.registry.resolve v = .ok v.column ∧ n.info v = .ok info := by
    have hext := extends_of_not_reloaded h hm hn hr
    exact ⟨hext.resolve hv, hext.info hinfo⟩
  refine ⟨m, info, hm, hinfo, fun us j n hn => ?_⟩
  have hforeign (hij : j ≠ i) := foreign_of_place_ne h hid hm hv hn hij
  have hstale (hij : j = i) (hr : Reloaded (interleave ms ts) i us) :=
    stale_of_reloaded h hm hv (hij ▸ hn) hr
  have hresolves (hc : ∃ c, n.registry.resolve v = .ok c) :
      j = i ∧ ¬ Reloaded (interleave ms ts) i us := by
    obtain ⟨c, hc⟩ := hc
    by_cases hij : j = i
    · refine ⟨hij, fun hr => ?_⟩
      rw [hstale hij hr] at hc
      cases hc
    · rw [hforeign hij] at hc
      cases hc
  refine ⟨⟨hresolves, fun ⟨hij, hr⟩ => ?_⟩, fun c hc => ?_, fun hij => ?_, fun hij hr => ?_,
    fun w hw hr => ?_, fun a w ha => ?_⟩
  · subst hij
    exact ⟨_, (hkept hn hr).1⟩
  · obtain ⟨rfl, hr⟩ := hresolves ⟨c, hc⟩
    exact ⟨(Registry.resolve_column hc).symm, (hkept hn hr).2⟩
  · exact ⟨hforeign hij, Registry.info_of_error (hforeign hij)⟩
  · exact ⟨hstale hij hr, Registry.info_of_error (hstale hij hr)⟩
  · obtain ⟨k, hk, hw⟩ := hw.exists_mem_handles h
    refine ⟨fun he => he ▸ rfl, fun he => ?_⟩
    have hw := Registry.mem_handles_iff.1 hw
    exact Registry.eq_of_resolve (he ▸ (hkept hk hr).1) hw
  · obtain ⟨rfl, -⟩ := Model.made_of_answer (balanced_interleave h hn).inStep ha
    exact newHandle_ne h hid hm hv hn

end Several

def twoModels : List (Model Rat (ServiceBackend Rat)) :=
  [.fresh ⟨0⟩ ({} : Script Rat).service {} [], .fresh ⟨1⟩ ({} : Script Rat).service {} []]

def makingX : List (Turn Rat) :=
  [⟨0, .build (.make (.create "x") .anyReal)⟩]

/-- The other model makes a variable of its own and loads, and the name is refused a second time. -/
def meanwhile : List (Turn Rat) :=
  [⟨1, .build (.make (.create "x") .binaryInteger)⟩,
    ⟨0, .build (.make (.create "x") .nonNegativeReal)⟩,
    ⟨1, .load "kept.json" { entries := [(["kept.json"], .empty)] }⟩,
    ⟨0, .build (.make .createAnonymous .anyReal)⟩]

def reloading : List (Turn Rat) :=
  [⟨0, .load "kept.json" { entries := [(["kept.json"], .empty)] }⟩]

theorem handles_never_alias_twoModels :
    let _ := Codec.reading Model.filed
    let x : Variable := ⟨⟨0⟩, 0, ⟨1⟩⟩
    let later := interleave twoModels (makingX ++ meanwhile)
    let last := interleave twoModels (makingX ++ (meanwhile ++ reloading))
    (twoModels.map Model.id).Nodup ∧ Issued twoModels 0 makingX x ∧
      (∃ m ∈ later[0]?, m.registry.resolve x = .ok ⟨1⟩) ∧
      (∃ m ∈ later[1]?, m.registry.resolve x = .error .foreignVariable) ∧
      ∃ m ∈ last[0]?, m.registry.resolve x = .error (.staleVariable ⟨1⟩) := by
  intro _ x later last
  have hid : (twoModels.map Model.id).Nodup := by decide
  have hx : Issued twoModels 0 makingX x := by
    have hmade : Issued twoModels 0 ([] ++ makingX) x := .made rfl rfl
    rwa [List.nil_append] at hmade
  have hnew : ∀ m ∈ twoModels, ∃ id service config events,
      m = Model.fresh id service config events := by
    simp only [twoModels, List.forall_mem_cons]
    exact ⟨⟨_, _, _, _, rfl⟩, ⟨_, _, _, _, rfl⟩, List.forall_mem_nil _⟩
  obtain ⟨_, info, -, -, hlater⟩ := handles_never_alias hnew hid hx
  have hmeanwhile : ¬ Reloaded (interleave twoModels makingX) 0 meanwhile := by decide +kernel
  have hreloaded : Reloaded (interleave twoModels makingX) 0 (meanwhile ++ reloading) := by
    decide +kernel
  have hplace {i : Nat} (ts : List (Turn Rat)) (hi : i < twoModels.length) :
      ∃ m, (interleave twoModels ts)[i]? = some m := by
    rw [getElem?_interleave, List.getElem?_eq_getElem hi]
    exact ⟨_, rfl⟩
  obtain ⟨m₀, h₀⟩ := hplace (makingX ++ meanwhile) Nat.zero_lt_two
  obtain ⟨m₁, h₁⟩ := hplace (makingX ++ meanwhile) Nat.one_lt_two
  obtain ⟨m₂, h₂⟩ := hplace (makingX ++ (meanwhile ++ reloading)) Nat.zero_lt_two
  obtain ⟨hresolves, htold, -⟩ := hlater meanwhile 0 m₀ h₀
  obtain ⟨c, hc⟩ := hresolves.2 ⟨rfl, hmeanwhile⟩
  obtain rfl : c = ⟨1⟩ := (htold c hc).1
  obtain ⟨-, -, hforeign, -⟩ := hlater meanwhile 1 m₁ h₁
  obtain ⟨-, -, -, hstale, -⟩ := hlater (meanwhile ++ reloading) 0 m₂ h₂
  exact ⟨hid, hx, ⟨m₀, h₀, hc⟩, ⟨m₁, h₁, (hforeign Nat.one_ne_zero).1⟩,
    m₂, h₂, (hstale rfl hreloaded).1⟩

end LinearProgram
