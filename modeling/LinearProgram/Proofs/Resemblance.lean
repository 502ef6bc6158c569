import LinearProgram.Proofs.Agreement
import LinearProgram.Proofs.GeneratedNames

/-! Registries that hold the same variables, but for what is known of their values. A call that
asks for no value passes the same checks on both, and comes to the same plan. -/

namespace LinearProgram

variable {α : Type}

/-- The name and the domain, up to the flag that tells of a known value. -/
def VariableInfo.outward (e : VariableInfo α) : String × Domain :=
  (e.name, e.domain.asConstant)

/-- The calls that ask no operand for its value. -/
def Origin.IsPlain : Origin α → Prop
  | multiply .. | divideBy .. => False
  | _ => True

def Instruction.IsPlain : Instruction α → Prop
  | make o _ => o.IsPlain
  | _ => True

/-- The same call, on the variables that stand for the columns of the operands. -/
def Origin.onColumns (f : ColumnId → Variable) : Origin α → Origin α
  | create name => create name
  | createAnonymous => createAnonymous
  | fromConstant value => fromConstant value
  | namedConstant name value => namedConstant name value
  | sum a b => sum (f a.column) (f b.column)
  | negate a => negate (f a.column)
  | scale a k => scale (f a.column) k
  | divide a k => divide (f a.column) k
  | multiply a b => multiply (f a.column) (f b.column)
  | divideBy a b => divideBy (f a.column) (f b.column)

def Instruction.onColumns (f : ColumnId → Variable) : Instruction α → Instruction α
  | make o d => make (o.onColumns f) d
  | relate a b sense => relate (f a.column) (f b.column) sense
  | maximize v => maximize (f v.column)
  | maximizeSum vs => maximizeSum (vs.map fun v => f v.column)

/-- Drafts of variables that no backend can tell apart. -/
structure Draft.Alike (p q : Draft α) : Prop where
  name : p.info.name = q.info.name
  domain : p.info.domain = q.info.domain
  row : p.row = q.row

inductive Plan.Alike : Plan α → Plan α → Prop
  | column {p q : Draft α} (h : p.Alike q) : Alike (.column p) (.column q)
  | relation (a b : ColumnId) (sense : Sense) : Alike (.relation a b sense) (.relation a b sense)
  | objective (row : LinearRow α) : Alike (.objective row) (.objective row)

namespace Registry

/-- The same variables in the same order, up to what is known of their values. -/
def Alike (r r' : Registry α) : Prop :=
  r.entries.map VariableInfo.outward = r'.entries.map VariableInfo.outward

namespace Alike

variable {r r' : Registry α}

theorem length_eq (h : r.Alike r') : r.entries.length = r'.entries.length := by
  simpa using congrArg List.length h

theorem nextColumn_eq (h : r.Alike r') : r.nextColumn = r'.nextColumn := by
  rw [nextColumn, nextColumn, h.length_eq]

theorem names_eq (h : r.Alike r') : r.names = r'.names := by
  have hnames := congrArg (List.map Prod.fst) h
  simpa [names, VariableInfo.outward, Function.comp_def] using hnames

theorem isTaken_eq (h : r.Alike r') (name : String) : r.isTaken name = r'.isTaken name := by
  rw [Bool.eq_iff_iff, isTaken_iff, isTaken_iff, h.names_eq]

theorem nextAnonymous_eq (h : r.Alike r') (hc : r.Counted) (hc' : r'.Counted) :
    r.nextAnonymous = r'.nextAnonymous :=
  hc.nextAnonymous_eq hc' h.isTaken_eq

theorem insert (h : r.Alike r') {i j : VariableInfo α} (hi : i.outward = j.outward) :
    (r.insert i).Alike (r'.insert j) := by
  unfold Alike Registry.insert
  rw [List.map_append, List.map_append, h, List.map_singleton, List.map_singleton, hi]

theorem resolve_eq (h : r.Alike r') (c : ColumnId) :
    r.resolve (r.handle c) = r'.resolve (r'.handle c) := by
  simp [resolve, handle, h.length_eq]

theorem concur_info (h : r.Alike r') (c : ColumnId) :
    Concur (fun e e' => e.outward = e'.outward) (r.info (r.handle c)) (r'.info (r'.handle c)) := by
  unfold info
  rw [h.resolve_eq]
  refine .same _ fun c => ?_
  have hentry := congrArg (fun l => l[c.offset]?) h
  simp only [List.getElem?_map] at hentry
  cases he : r.entries[c.offset]? <;> cases he' : r'.entries[c.offset]? <;>
    simp_all [Concur]

theorem checkFree_eq (h : r.Alike r') (name : String) :
    (r.checkFree name : Except (ModelError α) Unit) = r'.checkFree name := by
  rw [checkFree, checkFree, h.isTaken_eq]

variable [Scalar α]

theorem pinRow_eq (h : r.Alike r') (value : α) : r.pinRow value = r'.pinRow value := by
  rw [pinRow, pinRow, h.nextColumn_eq]

theorem sumRow_eq (h : r.Alike r') (row : LinearRow α) (vs : List Variable) :
    r.sumRow row (vs.map fun v => r.handle v.column) =
      r'.sumRow row (vs.map fun v => r'.handle v.column) := by
  induction vs generalizing row with
  | nil => rfl
  | cons v vs ih =>
    simp only [List.map_cons, sumRow, h.resolve_eq]
    cases r'.resolve (r'.handle v.column) with
    | ok c => exact ih (row.add c 1)
    | error e => rfl

omit [Scalar α] in
/-- Generated names agree, although the two have counted differently. -/
theorem draftGenerated (h : r.Alike r') (hc : r.Counted) (hc' : r'.Counted) (d : Domain)
    (k k' : Option α) (label label' : Option String) {row row' : Option (LinearRow α × α)}
    (hrow : row = row') :
    (r.draftGenerated d k label row).Alike (r'.draftGenerated d k' label' row') where
  name := congrArg generatedName (h.nextAnonymous_eq hc hc')
  domain := rfl
  row := hrow

theorem concur_draftDefined (h : r.Alike r') (hc : r.Counted) (hc' : r'.Counted) (d : Domain)
    (k k' : Option α) (label label' : String) (operands : LinearRow α) :
    Concur Draft.Alike (r.draftDefined d k label operands) (r'.draftDefined d k' label' operands) :=
  .same _ fun _ => h.draftGenerated hc hc' d k k' _ _ (by rw [h.nextColumn_eq])

end Alike

end Registry

section Plans

variable [Scalar α] {r r' : Registry α}

theorem Origin.concur_draft (h : r.Alike r') (hc : r.Counted) (hc' : r'.Counted) (d : Domain)
    {o : Origin α} (ho : o.IsPlain) :
    Concur Draft.Alike ((o.onColumns r.handle).draft r d) ((o.onColumns r'.handle).draft r' d) := by
  cases o with
  | create name =>
    refine .same _ fun _ => ?_
    rw [h.checkFree_eq]
    exact .same _ fun _ => ⟨rfl, rfl, rfl⟩
  | createAnonymous => exact .same _ fun _ => h.draftGenerated hc hc' d _ _ _ _ rfl
  | fromConstant value =>
    refine .same _ fun _ => h.draftGenerated hc hc' d _ _ _ _ ?_
    rw [h.pinRow_eq]
  | namedConstant name value =>
    refine .same _ fun _ => ?_
    rw [h.checkFree_eq]
    exact .same _ fun _ => ⟨rfl, rfl, by rw [h.pinRow_eq]⟩
  | sum a b =>
    simp only [onColumns, draft, h.resolve_eq]
    refine .same _ fun ca => .same _ fun cb => ?_
    refine (h.concur_info a.column).bind fun x x' hx => ?_
    refine (h.concur_info b.column).bind fun y y' hy => ?_
    exact h.concur_draftDefined hc hc' d _ _ _ _ _
  | negate a =>
    simp only [onColumns, draft, h.resolve_eq]
    refine .same _ fun c => (h.concur_info a.column).bind fun x x' hx => ?_
    exact h.concur_draftDefined hc hc' d _ _ _ _ _
  | scale a k =>
    simp only [onColumns, draft, Registry.draftScaled, h.resolve_eq]
    refine .same _ fun _ => .same _ fun c => (h.concur_info a.column).bind fun x x' hx => ?_
    exact h.concur_draftDefined hc hc' d _ _ _ _ _
  | divide a k =>
    simp only [onColumns, draft, Registry.draftDivided, h.resolve_eq]
    refine .same _ fun _ => .same _ fun _ => .same _ fun c => ?_
    refine (h.concur_info a.column).bind fun x x' hx => ?_
    exact h.concur_draftDefined hc hc' d _ _ _ _ _
  | multiply a b => exact ho.elim
  | divideBy a b => exact ho.elim

theorem Instruction.concur_plan (h : r.Alike r') (hc : r.Counted) (hc' : r'.Counted)
    {i : Instruction α} (hi : i.IsPlain) :
    Concur Plan.Alike ((i.onColumns r.handle).plan r) ((i.onColumns r'.handle).plan r') := by
  cases i with
  | make o d => exact (o.concur_draft h hc hc' d hi).bind fun p q hpq => .column hpq
  | relate a b sense =>
    simp only [onColumns, plan, h.resolve_eq]
    exact .same _ fun ca => .same _ fun cb => .relation ca cb sense
  | maximize v =>
    have hrow := h.sumRow_eq LinearRow.empty [v]
    simp only [List.map_cons, List.map_nil] at hrow
    simp only [onColumns, plan, hrow]
    exact .same _ fun row => .objective row
  | maximizeSum vs =>
    simp only [onColumns, plan, h.sumRow_eq]
    exact .same _ fun row => .objective row

end Plans

end LinearProgram
