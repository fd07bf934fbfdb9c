import NovelScript.Machine.Step
import NovelScript.Proofs.SaveArea

/-!
# Records beside the story

A machine keeps some things that are not part of the story it tells: its settings and the header of
the script, the marks on read text, the files of saves, the warnings and the log. An action is plain
if it treats these records in a few fixed ways only: it gives warnings and notices, looks for saves,
and writes files. Whatever else it reads and changes is part of the story.

What a plain action does to two machines that tell the same story follows from those few ways alone.
This file has the rules of plain actions, along the way actions are put together.
-/

namespace NovelScript

/-- What a machine keeps beside the story. -/
structure Records where
  /-- How the engine is set up. -/
  settings : Settings
  /-- What the top of the script declares. -/
  header : Header
  /-- Which addresses were reached. -/
  marks : ReadMarks
  /-- Where saves go. -/
  saves : SaveArea
  /-- Number of warnings so far. -/
  warningCount : Nat
  /-- The log so far. -/
  journal : List Notice

/-- Two places for saves that are the same but for the file of the marks: the other files have the
same contents, and the system treats the coming attempts to write them alike. -/
structure SaveArea.Agrees (saves others : SaveArea) : Prop where
  /-- There is a folder for saves in both or in none. -/
  absent_iff : others = .absent ↔ saves = .absent
  /-- The other files are the same. -/
  read : ∀ name, name ≠ Machine.marksFile → others.read? name = saves.read? name
  /-- The same attempts to write them are refused. -/
  refusals : ∀ name, name ≠ Machine.marksFile → others.refusals name = saves.refusals name

/-- A place for saves agrees with itself. -/
protected theorem SaveArea.Agrees.refl (saves : SaveArea) : saves.Agrees saves :=
  ⟨Iff.rfl, fun _ _ => rfl, fun _ _ => rfl⟩

namespace Records

/-- Notices are added to the log, some of them warnings. -/
def note (count : Nat) (notices : List Notice) (r : Records) : Records :=
  { r with warningCount := r.warningCount + count, journal := r.journal ++ notices }

/-- It was attempted to write a file. -/
def write (name : String) (bytes : Bytes) (r : Records) : Records :=
  { r with saves := r.saves.attempt name bytes }

/-- It was attempted to write the marks, if they are kept. -/
def writeMarks (r : Records) : Records :=
  if r.settings.trackRead then r.write Machine.marksFile r.marks.toBytes else r

/-- Why the marks cannot be written, if they are kept and the system refuses them. -/
def marksRefusal (r : Records) : Option WriteFailure :=
  if r.settings.trackRead then r.saves.refusals Machine.marksFile 0 else none

end Records

namespace Machine

variable {ε α β : Type} {m : Machine} {r : Records}

/-- What the machine keeps beside the story. -/
def records (m : Machine) : Records where
  settings := m.settings
  header := m.header
  marks := m.marks
  saves := m.saves
  warningCount := m.warningCount
  journal := m.journal

/-- The same story with other records. -/
def withRecords (m : Machine) (r : Records) : Machine :=
  { m with
    settings := r.settings
    header := r.header
    marks := r.marks
    saves := r.saves
    warningCount := r.warningCount
    journal := r.journal }

/-- The result of an action, with other records. -/
def resultWith (r : Records) : EStateM.Result ε Machine α → EStateM.Result ε Machine α
  | .ok a m => .ok a (m.withRecords r)
  | .error e m => .error e (m.withRecords r)

/-- Writes the marks on read text to their file, if they are kept. -/
def writeMarks : Run Unit := do
  let m ← get
  if m.settings.trackRead then writeSaved marksFile m.marks.toBytes

/-- A file is written, or the system refuses it; the records tell that it was attempted. -/
theorem writeSaved_eq_records (m : Machine) (name : String) (bytes : Bytes) :
    writeSaved name bytes m =
      match m.saves.refusals name 0 with
      | none => .ok () (m.withRecords (m.records.write name bytes))
      | some failure =>
        .error (.unwritten name failure) (m.withRecords (m.records.write name bytes)) :=
  writeSaved_eq m name bytes

/-- So it is with the marks. -/
theorem writeMarks_eq (m : Machine) : writeMarks m =
    match m.records.marksRefusal with
    | none => .ok () (m.withRecords m.records.writeMarks)
    | some failure =>
      .error (.unwritten marksFile failure) (m.withRecords m.records.writeMarks) := by
  rw [writeMarks, Action.get_bind, Records.marksRefusal, Records.writeMarks]
  show (if m.settings.trackRead then writeSaved marksFile m.marks.toBytes else pure ()) m = _
  have hsettings : m.records.settings = m.settings := rfl
  rw [hsettings]
  split
  · exact writeSaved_eq_records m marksFile m.marks.toBytes
  · rfl

/-- An action that treats the records in fixed ways. -/
inductive Plain : {α : Type} → Run α → Prop where
  /-- It neither reads nor changes them. -/
  | apart {α : Type} {x : Run α} (h : ∀ m r, x (m.withRecords r) = resultWith r (x m)) : Plain x
  /-- It does one thing after another. -/
  | bind {α β : Type} {x : Run α} {f : α → Run β} (hx : Plain x) (hf : ∀ a, Plain (f a)) :
    Plain (x >>= f)
  /-- It looks at the machine, and at saves. -/
  | look {α : Type} {f : Machine → Run α}
      (hsame : ∀ m r, m.saves.Agrees r.saves → f (m.withRecords r) = f m)
      (hf : ∀ m, Plain (f m)) : Plain (MonadState.get >>= f)
  /-- It reports a warning. -/
  | warn (warning : Warning) : Plain (warn warning)
  /-- It adds notices to the log. -/
  | note (notices : List Notice) : Plain (note notices)
  /-- It writes a file other than that of the marks. -/
  | write {name : String} (hname : name ≠ marksFile) (bytes : Bytes) :
    Plain (writeSaved name bytes)
  /-- It writes the marks to their file, if they are kept. -/
  | writeMarks : Plain writeMarks
  /-- It does something at another address. -/
  | atAddress {α : Type} {x : Run α} (hx : Plain x) (addr : Nat) : Plain (atAddress addr x)

namespace Plain

variable {x y : Run α} {f : α → Run β} {c : Prop} [Decidable c]

/-- Giving a result is plain. -/
protected theorem pure (a : α) : Plain (Pure.pure a : Run α) :=
  .apart fun _ _ => rfl

/-- So is a failure. -/
protected theorem throw (fault : Fault) : Plain (MonadExcept.throw fault : Run α) :=
  .apart fun _ _ => rfl

/-- Looking at the story. -/
protected theorem get {f : Machine → Run α} (hsame : ∀ m r, f (m.withRecords r) = f m)
    (hf : ∀ m, Plain (f m)) : Plain (MonadState.get >>= f) :=
  .look (fun m r _ => hsame m r) hf

/-- Changing the story. -/
protected theorem modify {f : Machine → Machine}
    (h : ∀ m r, f (m.withRecords r) = (f m).withRecords r) : Plain (modify f : Run PUnit) := by
  refine .apart fun m r => ?_
  show EStateM.Result.ok _ (f (m.withRecords r)) = .ok _ ((f m).withRecords r)
  rw [h]

/-- Each of two ways is plain if both are. -/
protected theorem ite (hx : Plain x) (hy : Plain y) : Plain (if c then x else y) := by
  split
  · exact hx
  · exact hy

/-- After a failure nothing comes. -/
theorem fail {fault : Fault} : Plain (MonadExcept.throw fault >>= f) :=
  .apart fun _ _ => rfl

/-- A check in front of the next action. -/
theorem guard {fault : Fault} {f : Unit → Run β} (hf : Plain (f ())) :
    Plain (if c then MonadExcept.throw fault >>= f else f ()) :=
  .ite fail hf

/-- Something to do before the next action, if a condition holds. -/
theorem doIf {x : Run Unit} {f : Unit → Run β} (hx : Plain x) (hf : Plain (f ())) :
    Plain (if c then x >>= f else f ()) :=
  .ite (.bind hx fun _ => hf) hf

/-- Something to do before the next action, unless a condition holds. -/
theorem doUnless {x : Run Unit} {f : Unit → Run β} (hx : Plain x) (hf : Plain (f ())) :
    Plain (if c then f () else x >>= f) :=
  .ite hf (.bind hx fun _ => hf)

/-- Two ways to the next action. -/
theorem join (hx : Plain x) (hy : Plain y) (hf : ∀ a, Plain (f a)) :
    Plain (if c then x >>= f else y >>= f) :=
  .ite (.bind hx hf) (.bind hy hf)

/-- What is done with the result does not matter. -/
protected theorem map (f : α → β) (hx : Plain x) : Plain (f <$> x) := by
  rw [map_eq_pure_bind]
  exact .bind hx fun a => .pure (f a)

/-- Nor does it matter that the result is thrown away. -/
protected theorem discard (hx : Plain x) : Plain (discard x) :=
  hx.map fun _ => ()

/-- A computation that may fail is plain. -/
theorem ofExcept (result : Except Fault α) : Plain (Action.ofExcept result : Run α) := by
  cases result with
  | ok a => exact .pure a
  | error fault => exact .throw fault

end Plain

end Machine

end NovelScript
