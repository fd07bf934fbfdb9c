import NovelScript.Machine.Step
import NovelScript.Proofs.Action
import NovelScript.Proofs.Store.Edit

/-!
# The host and what it can do

A host drives a machine by calls: it takes steps, reads the operands of its own commands, finishes
them, writes and loads saves, and may edit the variables. A machine is reachable if some script was
loaded and some calls, whether they succeeded or failed, have led to it.
-/

namespace NovelScript.Machine

/-- A call of the host. -/
inductive HostCall where
  /-- Takes a step. -/
  | step
  /-- Finishes a command of the host. -/
  | finish (outcome : Outcome)
  /-- Reads an integer expression. -/
  | readInt
  /-- Reads a string expression. -/
  | readStr
  /-- Reads a label. -/
  | readLabel
  /-- Reads a variable reference. -/
  | readVarRef
  /-- Passes over the operands that were not read. -/
  | skipOperands
  /-- Passes over a keyword, if it is next. -/
  | eatKeyword (word : String)
  /-- Passes over punctuation, if it is next. -/
  | eatToken (token : Bytes)
  /-- Goes on at a label. -/
  | startAt (name : String)
  /-- Registers a command of the host. -/
  | registerHost (name : String)
  /-- Notes that a file was used. -/
  | recordFile (name : String)
  /-- Edits the variables. -/
  | edit (change : Store.Edit)
  /-- Writes the persistent files. -/
  | savePersistent
  /-- Writes a save slot, for a game that goes on at `resume`. -/
  | saveSlot (slot : Int32) (resume : Nat) (description : Option Bytes)
  /-- Loads a save slot. -/
  | loadSlot (slot : Int32)
  /-- Goes on with a saved game. -/
  | restore (save : Save)

/-- What a call gives back. -/
inductive Reply where
  /-- Nothing. -/
  | done
  /-- What a step did. -/
  | event (event : Event)
  /-- An operand. -/
  | value (value : Value)
  /-- A label. -/
  | label (name : String)
  /-- A variable reference. -/
  | ref (target : VariableRef)
  /-- Whether something was there. -/
  | found (found : Bool)
  deriving DecidableEq

/-- An action outside of execution: its failures tell no place. -/
def unlocated {α : Type} (action : Run α) : Located α := fun m =>
  match action m with
  | .ok a after => .ok a after
  | .error fault after => .error (.ofFault fault) after

/-- The place that is told with a failure leaves the machine as it is. -/
theorem after_located {α : Type} (action : Run α) (m : Machine) :
    Action.after (located action) m = Action.after action m := by
  simp only [Action.after, located]
  cases action m <;> rfl

/-- So does its absence. -/
theorem after_unlocated {α : Type} (action : Run α) (m : Machine) :
    Action.after (unlocated action) m = Action.after action m := by
  simp only [Action.after, unlocated]
  cases action m <;> rfl

/-- Goes on with a saved game, all or nothing. -/
def resume (save : Save) : Run Unit := do
  let restored ← Action.ofExcept ((← get).restore save)
  set restored

/-- Carries out a call. -/
def HostCall.perform : HostCall → Located Reply
  | step => do return .event (← Machine.step)
  | finish outcome => do return .event (← finishCommand outcome)
  | readInt => do return .value (.int (← unlocated Machine.readInt))
  | readStr => do return .value (.str (← unlocated Machine.readStr))
  | readLabel => do return .label (← unlocated Machine.readLabel)
  | readVarRef => do return .ref (← unlocated Machine.readVarRef)
  | skipOperands => do
    modify Machine.skipOperands
    return .done
  | eatKeyword word => do return .found (← unlocated (Machine.eatKeyword word))
  | eatToken token => do return .found (← unlocated (Machine.eatToken token))
  | startAt name => do
    unlocated (Machine.startAt name)
    return .done
  | registerHost name => do
    modify fun m => m.registerHost name
    return .done
  | recordFile name => do
    modify fun m => m.recordFile name
    return .done
  | edit change => do
    unlocated (updateStore fun store => change.apply store)
    return .done
  | savePersistent => do
    unlocated Machine.savePersistent
    return .done
  | saveSlot slot resume description => do
    unlocated (Machine.saveSlot slot resume description)
    return .done
  | loadSlot slot => do
    unlocated (Machine.loadSlot slot)
    return .done
  | restore save => do
    unlocated (Machine.resume save)
    return .done

/-- What a call gave back: a reply or a failure. -/
abbrev Answer := Except Failure Reply

/-- Carries out a call; the machine goes on from where the call left it, also after a failure. -/
def serve (m : Machine) (call : HostCall) : Answer × Machine :=
  match call.perform m with
  | .ok reply after => (.ok reply, after)
  | .error failure after => (.error failure, after)

/-- A call leaves the machine where its action leaves it. -/
theorem serve_snd (m : Machine) (call : HostCall) :
    (m.serve call).2 = Action.after call.perform m := by
  simp only [serve, Action.after]
  cases call.perform m <;> rfl

/-- Carries out calls in order, and gives all their answers. -/
def serveAll : List HostCall → Machine → List Answer × Machine
  | [], m => ([], m)
  | call :: calls, m =>
    let (answer, next) := m.serve call
    let (answers, last) := serveAll calls next
    (answer :: answers, last)

/-- The first call is answered first, and the others by the machine that it leaves. -/
theorem serveAll_cons (m : Machine) (call : HostCall) (calls : List HostCall) :
    m.serveAll (call :: calls) =
      ((m.serve call).1 :: ((m.serve call).2.serveAll calls).1,
        ((m.serve call).2.serveAll calls).2) := rfl

/-- Calls in two parts are carried out one part after the other. -/
theorem serveAll_append_snd (calls further : List HostCall) (m : Machine) :
    (m.serveAll (calls ++ further)).2 = ((m.serveAll calls).2.serveAll further).2 := by
  induction calls generalizing m with
  | nil => rfl
  | cons call calls ih => exact ih (m.serve call).2

/-- Some script was loaded and some calls have led to the machine. -/
inductive Reachable : Machine → Prop where
  /-- A machine at the start of a script. -/
  | load {script : Script} {settings : Settings} {saves : SaveArea} {entropy : RandomSource}
      {library : Library} {m : Machine}
      (h : Machine.load script settings saves entropy library = .ok m) : Reachable m
  /-- A machine after one more call. -/
  | serve {m : Machine} (h : Reachable m) (call : HostCall) : Reachable (m.serve call).2

/-- From a machine to start with, some calls that were allowed have led to the machine. -/
inductive Driven (start : Machine → Prop) (allowed : Machine → HostCall → Prop) :
    Machine → Prop where
  /-- A machine to start with. -/
  | start {m : Machine} (h : start m) : Driven start allowed m
  /-- A machine after one more call. -/
  | serve {m : Machine} (h : Driven start allowed m) (call : HostCall) (hcall : allowed m call) :
    Driven start allowed (m.serve call).2

/-- What the calls lead to from a reachable machine is reachable. -/
theorem Driven.reachable {start : Machine → Prop} {allowed : Machine → HostCall → Prop}
    {m : Machine} (h : Driven start allowed m) (hstart : ∀ m, start m → Reachable m) :
    Reachable m := by
  induction h with
  | start h => exact hstart _ h
  | serve h call hcall ih => exact ih.serve call

/-- What is reached by calls from a machine that can be reached can be reached. -/
theorem Reachable.serveAll {m : Machine} (h : Reachable m) (calls : List HostCall) :
    Reachable (m.serveAll calls).2 := by
  induction calls generalizing m with
  | nil => exact h
  | cons call calls ih => exact ih (h.serve call)

end NovelScript.Machine
