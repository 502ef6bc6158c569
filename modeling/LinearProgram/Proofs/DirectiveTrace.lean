import LinearProgram.Proofs.DirectiveGrammar
import LinearProgram.Proofs.Poisoning

/-! Whatever is called on a model, and whatever its backend refuses, what the backend is told keeps
to the grammar of blocks, from the start or from the last load on. -/

namespace LinearProgram

variable {α β : Type}

/-- A call that has brought in another program. -/
def loads (c : Action α × Except (ModelError α) (Answer α)) : Bool :=
  c.2 matches .ok (.loaded _)

section Plans

variable [Scalar α] {r : Registry α} {n : Nat}

theorem LinearRow.Within.shaped {row : LinearRow α} (h : row.Within n) : Shaped n row.terms :=
  ⟨row.increasing_terms, fun t ht =>
    ⟨(LinearRow.mem_terms.1 ht).2, h t (LinearRow.mem_terms.1 ht).1⟩⟩

theorem VariableInfo.block_directives (info : VariableInfo α) (n : Nat) :
    Block n ((info.directives (.ofOffset n)).map .sent) (n + 1) := by
  obtain ⟨name, ⟨kind, range, flag⟩, value, label⟩ := info
  cases kind <;> cases range
  · exact .column name (.inr rfl) (.inr ⟨_, _, rfl⟩)
  · exact .column name (.inr rfl) (.inr ⟨_, _, rfl⟩)
  · exact .column name (.inr rfl) (.inl rfl)
  · exact .column name (.inl rfl) (.inr ⟨_, _, rfl⟩)
  · exact .column name (.inl rfl) (.inr ⟨_, _, rfl⟩)
  · exact .column name (.inl rfl) (.inl rfl)

theorem Plan.Sound.blocks {p : Plan α} (h : p.Sound r) :
    Blocks r.entries.length (p.directives r) (r.entries.length + p.size) := by
  cases p with
  | column p =>
    refine (p.info.block_directives r.entries.length).blocks.trans ?_
    have hrow := h.row
    cases hp : p.row with
    | none => exact .nil
    | some t => exact (Block.row .equal t.2 (hrow t hp).shaped).blocks
  | relation a b sense =>
    have hrow := ((LinearRow.Within.empty (α := α) _).add h.1 1).add h.2 (-1)
    exact (Block.row sense 0 hrow.shaped).blocks
  | objective row => exact (Block.objective (LinearRow.Within.shaped h)).blocks

end Plans

/-- Where a model stands, by what its backend has been told since the log was `base`. -/
def Told [Scalar α] (n₀ : Nat) (base : List (LogLine α)) (m : Model α (Logged α β)) : Prop :=
  ∃ seg, m.backend.log = base ++ seg ∧
    (m.Open ∧ (∃ l, Blocks n₀ l m.registry.entries.length ∧ mutating seg = accepted l) ∨
      ¬ m.Open ∧ Conforms n₀ (mutating seg))

section Steps

variable [Scalar α] [Backend α β] {n₀ : Nat} {base : List (LogLine α)}
  {m m' : Model α (Logged α β)}

omit [Scalar α] [Backend α β] in
theorem mutating_append (l l' : List (LogLine α)) :
    mutating (l ++ l') = mutating l ++ mutating l' :=
  List.filter_append ..

omit [Scalar α] [Backend α β] in
theorem mutating_accepted {l : List (LogEntry α)} (h : ∀ e ∈ l, e.mutates = true) :
    mutating (accepted l) = accepted l :=
  List.filter_eq_self.2 (List.forall_mem_map.2 h)

omit [Scalar α] [Backend α β] in
theorem accepted_append (l l' : List (LogEntry α)) :
    accepted (l ++ l') = accepted l ++ accepted l' :=
  List.map_append

omit [Backend α β] in
/-- What stands apart from the grammar, or cannot be sent any more, leaves it as it was. -/
theorem Told.skip (h : Told n₀ base m) {skipped : List (LogLine α)}
    (hs : m'.backend.log = m.backend.log ++ skipped) (hm : mutating skipped = [])
    (ho : m'.Open → m.Open) (hr : m'.Open → m'.registry = m.registry) : Told n₀ base m' := by
  obtain ⟨seg, hlog, h⟩ := h
  refine ⟨seg ++ skipped, by rw [hs, hlog, List.append_assoc], ?_⟩
  rw [mutating_append, hm, List.append_nil]
  by_cases hm' : m'.Open
  · rcases h with ⟨-, h⟩ | ⟨hc, -⟩
    · exact .inl ⟨hm', hr hm' ▸ h⟩
    · exact (hc (ho hm')).elim
  · refine .inr ⟨hm', ?_⟩
    rcases h with ⟨-, l, hl, he⟩ | ⟨-, h⟩
    · exact he ▸ .whole hl
    · exact h

omit [Backend α β] in
theorem Told.open (h : Told n₀ base m) (ho : m.Open) :
    ∃ seg l, m.backend.log = base ++ seg ∧ Blocks n₀ l m.registry.entries.length ∧
      mutating seg = accepted l := by
  obtain ⟨seg, hlog, ⟨-, l, hl⟩ | ⟨hc, -⟩⟩ := h
  · exact ⟨seg, l, hlog, hl⟩
  · exact (hc ho).elim

theorem Told.plan (h : Told n₀ base m) (ho : m.Open) {p : Plan α} (hp : p.Sound m.registry)
    {a : Action α} (ha : a.call m = p.execute m) : Told n₀ base (a.after m) := by
  obtain ⟨seg, l, hlog, hl, he⟩ := h.open ho
  have hb : Blocks n₀ (l ++ p.directives m.registry) _ := hl.trans hp.blocks
  rcases (Call.tells_plan hp).cases with
    ⟨r, m', hx, hm, hg⟩ | ⟨e, m', pre, d, post, hx, -, hpoisoned, hd, hm⟩
  · rw [Action.after_of_ok (ha.trans hx)]
    refine ⟨seg ++ accepted (p.directives m.registry), by rw [hm, hlog, List.append_assoc]; rfl,
      .inl ⟨⟨hg.poisoned.trans ho.1, hg.state.trans ho.2⟩, l ++ p.directives m.registry, ?_, ?_⟩⟩
    · rw [hg.entries]
      exact hb
    · rw [mutating_append, he, mutating_accepted hp.blocks.mutates, accepted_append]
  -- the directive that was refused lies in a block of the plan, which it cuts short
  · rw [Action.after_of_error (ha.trans hx)]
    have hmut := List.forall_mem_append.1 (hd ▸ hp.blocks.mutates)
    rw [hd, ← List.append_assoc] at hb
    refine ⟨seg ++ (accepted pre ++ [(d, false)]), by simp [hm, hlog, accepted],
      .inr ⟨(fun ho' => nomatch hpoisoned.symm.trans ho'.1), ?_⟩⟩
    have hcut := hb.cut
    have hd : mutating [(d, false)] = [(d, false)] :=
      List.filter_eq_self.2 (List.forall_mem_singleton.2 (hmut.2 d List.mem_cons_self))
    rw [mutating_append, mutating_append, he, mutating_accepted hmut.1, hd, ← List.append_assoc,
      ← accepted_append]
    exact hcut

theorem Told.build (h : Told n₀ base m) (i : Instruction α) :
    Told n₀ base ((Action.build i).after m) := by
  have hchecks := m.checks_plan i
  have hi : (Action.build i).call m = _ := Call.instruction_eq i
  cases hp : m.plan i with
  | error e =>
    rw [hp] at hi
    rw [Action.after_of_error hi]
    exact h
  | ok p =>
    rw [hp] at hchecks hi
    exact h.plan hchecks.1 hchecks.2 hi

theorem Told.solve (h : Told n₀ base m) : Told n₀ base (Action.solve.after m) := by
  have hchecks := m.checks_buildable
  cases hb : m.buildable with
  | error e =>
    rw [Action.after_of_error (Call.bind_of_error (Call.solve_of_not_open hb))]
    exact h
  | ok u =>
    rw [hb] at hchecks
    obtain ⟨seg, l, hlog, hl, he⟩ := h.open hchecks
    have hsolved (ok : Bool) : Conforms n₀ (mutating (seg ++ [(.solve, ok)])) := by
      rw [mutating_append, he]
      exact .solved hl ok
    cases hs : Backend.solve m.backend.backend with
    | ok r b =>
      obtain ⟨events, hc⟩ := Call.solve_of_ok hchecks (Logged.request_of_ok (e := .solve) hs)
      rw [Action.after_of_ok (Call.bind_of_ok hc)]
      exact ⟨_, by rw [hlog, List.append_assoc], .inr ⟨(fun ho => nomatch ho.2), hsolved true⟩⟩
    | error e b =>
      obtain ⟨events, hc⟩ := Call.solve_of_error hchecks (Logged.request_of_error (e := .solve) hs)
      rw [Action.after_of_error (Call.bind_of_error hc)]
      exact ⟨_, by rw [hlog, List.append_assoc], .inr ⟨(fun ho => nomatch ho.1), hsolved false⟩⟩

theorem Told.save (h : Told n₀ base m) (path : String) (files : Files) :
    Told n₀ base ((Action.save path files).after m) := by
  cases hp : m.poisoned with
  | true =>
    rw [Action.after_of_error (Call.bind_of_error (Call.save_of_poisoned hp))]
    exact h
  | false =>
    cases hs : Backend.save path files m.backend.backend with
    | ok r b =>
      have hc := Call.save_of_ok hp (Logged.request_of_ok (e := .saveModel) hs)
      rw [Action.after_of_ok (Call.bind_of_ok hc)]
      exact h.skip rfl rfl id fun _ => rfl
    | error e b =>
      have hc := Call.save_of_error hp (Logged.request_of_error (e := .saveModel) hs)
      rw [Action.after_of_error (Call.bind_of_error hc)]
      exact h.skip rfl rfl id fun _ => rfl

theorem Told.load (h : Told n₀ base m) {path : String} {files : Files}
    (hload : loads (.load path files, (Action.load path files).answer m) = false) :
    Told n₀ base ((Action.load path files).after m) := by
  cases hp : m.poisoned with
  | true =>
    rw [Action.after_of_error (Call.bind_of_error (Call.load_of_poisoned hp))]
    exact h
  | false =>
    cases hl : Backend.load path files m.backend.backend with
    | error e b =>
      have hc := Call.load_of_error hp (Logged.request_of_error (e := .loadModel) hl)
      rw [Action.after_of_error (Call.bind_of_error hc)]
      exact h.skip rfl rfl (fun ho => nomatch ho.1) fun ho => nomatch ho.1
    | ok reported b =>
      have hl := Logged.request_of_ok (e := .loadModel) hl
      let held : Logged α β := ⟨m.backend.log ++ [(.loadModel, true)], b⟩
      cases hh : Model.heldVariables held with
      | error e =>
        obtain ⟨events, hc⟩ := Call.load_of_unheld hp hl hh
        rw [Action.after_of_error (Call.bind_of_error hc)]
        exact h.skip rfl rfl (fun ho => nomatch ho.1) fun ho => nomatch ho.1
      | ok entries =>
        obtain ⟨events, hc⟩ := Call.load_of_held hp hl hh
        rw [Action.answer_of_ok (Call.bind_of_ok hc)] at hload
        cases hload

theorem Told.after (h : Told n₀ base m) {a : Action α}
    (ha : loads (a, a.answer m) = false) : Told n₀ base (a.after m) := by
  cases a with
  | build i => exact h.build i
  | solve => exact h.solve
  | save path files => exact h.save path files
  | load path files => exact h.load ha
  | value v => rwa [Action.after_value]

theorem Told.run (h : Told n₀ base m) {as : List (Action α)}
    (has : ∀ c ∈ m.history as, loads c = false) : Told n₀ base (m.after as) := by
  induction as generalizing m with
  | nil => exact h
  | cons a as ih =>
    obtain ⟨ha, has⟩ := List.forall_mem_cons.1 has
    exact ih (h.after ha) has

omit [Backend α β] in
theorem told_new (id : ModelId) (b : β) (events : List Event) :
    Told 0 [] ((Model.new id b events : Model α β).logged []) :=
  ⟨[], rfl, .inl ⟨⟨rfl, rfl⟩, [], .nil, rfl⟩⟩

theorem exists_load_of_loads {m : Model α β} {a : Action α}
    (h : loads (a, a.answer m) = true) :
    ∃ path files, a = .load path files := by
  cases ha : a.call m with
  | error e m' => simp [loads, Action.answer_of_error ha] at h
  | ok r m' =>
    rw [Action.answer_of_ok ha] at h
    cases a with
    | build i =>
      cases i <;> obtain ⟨_, _, -, hr⟩ := Call.bind_eq_ok_iff.1 ha <;>
        obtain ⟨rfl, -⟩ := Call.pure_eq_ok_iff.1 hr <;> cases h
    | solve =>
      obtain ⟨_, _, -, hr⟩ := Call.bind_eq_ok_iff.1 ha
      obtain ⟨rfl, -⟩ := Call.pure_eq_ok_iff.1 hr
      cases h
    | save path files =>
      obtain ⟨_, _, -, hr⟩ := Call.bind_eq_ok_iff.1 ha
      obtain ⟨rfl, -⟩ := Call.pure_eq_ok_iff.1 hr
      cases h
    | load path files => exact ⟨path, files, rfl⟩
    | value v =>
      simp only [Action.call, Call.ask] at ha
      cases hx : m.value v with
      | ok x =>
        simp only [hx, Except.map] at ha
        cases ha
        cases h
      | error e => simp [hx, Except.map] at ha

theorem told_of_loads {a : Action α} (h : loads (a, a.answer m) = true) :
    Told (a.after m).columns (a.after m).backend.log (a.after m) := by
  obtain ⟨path, files, rfl⟩ := exists_load_of_loads h
  have hne {e : ModelError α} {m' : Model α (Logged α β)}
      (he : Call.load path files m = .error e m') : False := by
    rw [Action.answer_of_error (Call.bind_of_error he)] at h
    cases h
  cases hp : m.poisoned with
  | true => exact (hne (Call.load_of_poisoned hp)).elim
  | false =>
    cases hl : Backend.load path files m.backend with
    | error e b => exact (hne (Call.load_of_error hp hl)).elim
    | ok reported b =>
      cases hh : Model.heldVariables b with
      | error e =>
        obtain ⟨events, hc⟩ := Call.load_of_unheld hp hl hh
        exact (hne hc).elim
      | ok entries =>
        obtain ⟨events, hc⟩ := Call.load_of_held hp hl hh
        rw [Action.after_of_ok (Call.bind_of_ok hc)]
        -- nothing has been told since, and the model is as open as a new one
        refine ⟨[], (List.append_nil _).symm, .inl ⟨⟨hp, rfl⟩, [], ?_, rfl⟩⟩
        show Blocks (Backend.columnCount b) [] entries.length
        rw [Call.length_heldVariables hh]
        exact .nil

end Steps

/-- Told from the start or from the last load on, and then from `n₀` columns on. -/
theorem Model.conforms_told [Scalar α] [Backend α β] (id : ModelId) (b : β) (events : List Event)
    (as bs : List (Action α)) :
    let start : Model α β := Model.new id b events
    (as = [] ∨ ∃ cs a, as = cs ++ [a] ∧ loads (a, a.answer (start.after cs)) = true) →
    (∀ c ∈ (start.after as).history bs, loads c = false) →
    ((start.logged []).after (as ++ bs)).unlogged = start.after (as ++ bs) ∧
    ∃ seg, ((start.logged []).after (as ++ bs)).backend.log =
        ((start.logged []).after as).backend.log ++ seg ∧
      Conforms (start.after as).columns (mutating seg) ∧
      (∀ pre ok post, mutating seg = pre ++ (.solve, ok) :: post → post = []) ∧
      ∀ pre ts sense bound ok post,
        mutating seg = pre ++ (.sent (.addRow ts sense bound), ok) :: post →
        ∀ t ∈ ts, (start.after as).columns < t.1.number →
          installs LogEntry.bounded? t.1 (pre.map Prod.fst) = 1 ∧
          installs LogEntry.integer? t.1 (pre.map Prod.fst) ≤ 1 ∧
          installs LogEntry.bounded? t.1 (post.map Prod.fst) = 0 ∧
          installs LogEntry.integer? t.1 (post.map Prod.fst) = 0 := by
  intro start has hbs
  let m := (start.logged []).after as
  have hm : m.unlogged = start.after as := ((start.logged []).after_unlogged as).symm
  have hstart : Told m.columns m.backend.log m := by
    rcases has with rfl | ⟨cs, a, rfl, ha⟩
    · exact told_new id b events
    · have hcs := (start.logged []).after_unlogged cs
      rw [Model.unlogged_logged] at hcs
      rw [hcs, a.answer_unlogged] at ha
      simp only [m, Model.after_append]
      exact told_of_loads ha
  have hlogged : ∀ c ∈ m.history bs, loads c = false := by
    rw [← Model.history_unlogged, hm]
    exact hbs
  refine ⟨((start.logged []).after_unlogged _).symm, ?_⟩
  obtain ⟨seg, hlog, hseg⟩ := hstart.run hlogged
  have hconf : Conforms m.columns (mutating seg) := by
    rcases hseg with ⟨-, l, hl, he⟩ | ⟨-, h⟩
    · exact he ▸ .whole hl
    · exact h
  have hcolumns : m.columns = (start.after as).columns := congrArg Model.columns hm
  rw [hcolumns] at hconf
  refine ⟨seg, by rw [Model.after_append]; exact hlog, hconf, fun pre ok post h => ?_, ?_⟩
  · exact (h ▸ hconf).eq_nil_of_solve
  · intro pre ts sense bound ok post h t ht hn
    exact (h ▸ hconf).installs_of_row ht hn

/-- A backend that holds one column once it has loaded, and refuses the next name after that. -/
def Model.reloading : Recording Rat :=
  { loads := some { columns := [Column.integer "kept"], objective := [(⟨1⟩, 1)] }
    rejects := [(.setColumnName, 3)] }

def Model.beforeReload : List (Action Rat) :=
  [.build (.make (.create "x") .anyReal), .load "kept.json" {}]

/-- One more variable, a sum of two, and a variable that is refused. -/
def Model.afterReload : List (Action Rat) :=
  [.build (.make (.create "y") .nonNegativeInteger), .save "kept.json" {},
    .build (.relate ⟨⟨0⟩, 1, ⟨1⟩⟩ ⟨⟨0⟩, 1, ⟨2⟩⟩ .lessEqual),
    .build (.make (.create "z") .binaryInteger), .solve]

theorem Model.conforms_told_reloading :
    ((Model.new ⟨0⟩ reloading []).after beforeReload).columns = 1 ∧
      ∃ seg, (((Model.new ⟨0⟩ reloading []).logged []).after
            (beforeReload ++ afterReload)).backend.log =
          (((Model.new ⟨0⟩ reloading []).logged []).after beforeReload).backend.log ++ seg ∧
        Conforms 1 (mutating seg) ∧ seg.length = 8 := by
  have hloads : loads (.load "kept.json" {}, (Action.load "kept.json" {}).answer
      ((Model.new ⟨0⟩ reloading []).after [.build (.make (.create "x") .anyReal)])) = true := by
    decide +kernel
  have hrest : ∀ c ∈ ((Model.new ⟨0⟩ reloading []).after beforeReload).history afterReload,
      loads c = false := by
    decide +kernel
  have hcolumns : ((Model.new ⟨0⟩ reloading []).after beforeReload).columns = 1 := by
    decide +kernel
  have hbefore : (((Model.new ⟨0⟩ reloading []).logged []).after beforeReload).backend.log.length =
      4 := by
    decide +kernel
  have hafter : (((Model.new ⟨0⟩ reloading []).logged []).after
      (beforeReload ++ afterReload)).backend.log.length = 12 := by
    decide +kernel
  obtain ⟨-, seg, hlog, hconf, -⟩ := conforms_told ⟨0⟩ reloading [] beforeReload afterReload
    (.inr ⟨[.build (.make (.create "x") .anyReal)], _, rfl, hloads⟩) hrest
  refine ⟨hcolumns, seg, hlog, hcolumns ▸ hconf, ?_⟩
  have hlen := congrArg List.length hlog
  rw [List.length_append, hbefore, hafter] at hlen
  omega

end LinearProgram
