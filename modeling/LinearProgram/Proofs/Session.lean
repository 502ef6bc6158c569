import LinearProgram.Model.Restore
import LinearProgram.Model.Run
import LinearProgram.Proofs.BuildRun

/-! Sessions: any calls on a model, one after another, whether they succeed or fail. -/

namespace LinearProgram

variable {α β : Type}

/-- A call that adds to the program of a model. -/
inductive Instruction (α : Type) where
  | make (o : Origin α) (d : Domain)
  | relate (a b : Variable) (sense : Sense)
  | maximize (v : Variable)
  | maximizeSum (vs : List Variable)

/-- A call, with the files that it finds. -/
inductive Action (α : Type) where
  | build (i : Instruction α)
  | solve
  | save (path : String) (files : Files)
  | load (path : String) (files : Files)
  | value (v : Variable)

inductive Answer (α : Type) where
  | done
  | made (v : Variable)
  | status (s : Status)
  | saved (files : Files)
  | loaded (s : Snapshot)
  | value (x : α)

section Calls

variable [Scalar α] [Backend α β]

def Instruction.call : Instruction α → Call α β (Answer α)
  | make o d => do
    let v ← o.call d
    return .made v
  | relate a b sense => do
    Call.relate a b sense
    return .done
  | maximize v => do
    Call.maximize v
    return .done
  | maximizeSum vs => do
    Call.maximizeSum vs
    return .done

namespace Action

def call : Action α → Call α β (Answer α)
  | build i => i.call
  | solve => do
    let s ← Call.solve
    return .status s
  | save path files => do
    let files ← Call.save path files
    return .saved files
  | load path files => do
    let s ← Call.load path files
    return .loaded s
  | value v => Call.ask fun m => (m.value v).map .value

def answer (a : Action α) (m : Model α β) : Except (ModelError α) (Answer α) :=
  match a.call m with
  | .ok r _ => .ok r
  | .error e _ => .error e

def after (a : Action α) (m : Model α β) : Model α β :=
  match a.call m with
  | .ok _ m' => m'
  | .error _ m' => m'

theorem answer_of_ok {a : Action α} {m m' : Model α β} {r : Answer α} (h : a.call m = .ok r m') :
    a.answer m = .ok r := by
  simp [answer, h]

theorem answer_of_error {a : Action α} {m m' : Model α β} {e : ModelError α}
    (h : a.call m = .error e m') : a.answer m = .error e := by
  simp [answer, h]

theorem after_of_ok {a : Action α} {m m' : Model α β} {r : Answer α} (h : a.call m = .ok r m') :
    a.after m = m' := by
  simp [after, h]

theorem after_of_error {a : Action α} {m m' : Model α β} {e : ModelError α}
    (h : a.call m = .error e m') : a.after m = m' := by
  simp [after, h]

end Action

namespace Model

def after (m : Model α β) (as : List (Action α)) : Model α β :=
  as.foldl (fun m a => a.after m) m

/-- The calls of a session, each with its answer. -/
def history : Model α β → List (Action α) → List (Action α × Except (ModelError α) (Answer α))
  | _, [] => []
  | m, a :: as => (a, a.answer m) :: (a.after m).history as

@[simp] theorem after_nil (m : Model α β) : m.after ([] : List (Action α)) = m := rfl

@[simp] theorem after_cons (m : Model α β) (a : Action α) (as : List (Action α)) :
    m.after (a :: as) = (a.after m).after as := rfl

@[simp] theorem after_append (m : Model α β) (as bs : List (Action α)) :
    m.after (as ++ bs) = (m.after as).after bs :=
  List.foldl_append

end Model

end Calls

end LinearProgram
