import Mathlib.Data.List.Forall2
import NovelScript.Machine.Step
import NovelScript.Proofs.Action

/-!
# What loading leaves

A machine that was loaded or that goes on with a saved game, in terms of the machine before.
-/

namespace NovelScript.Machine

/-- Frames are found one by one. -/
theorem framesOf_eq_ok_iff {m : Machine} {saved : List SavedFrame} {frames : List Frame} :
    m.framesOf saved = .ok frames ↔
      List.Forall₂ (fun saved frame => m.frameOf saved = .ok frame) saved frames := by
  constructor
  · intro h
    induction saved generalizing frames with
    | nil =>
      cases h
      exact .nil
    | cons first saved ih =>
      obtain ⟨frame, hframe, h⟩ := Action.exists_of_bind_eq_ok h
      obtain ⟨rest, hrest, h⟩ := Action.exists_of_bind_eq_ok h
      cases h
      exact .cons hframe (ih hrest)
  · intro h
    induction h with
    | nil => rfl
    | cons hframe _ ih =>
      rw [framesOf, hframe]
      show (m.framesOf _ >>= _) = _
      rw [ih]
      rfl

/-- What a restored game is made of. -/
theorem restore_eq_ok {m restored : Machine} {save : Save} (h : m.restore save = .ok restored) :
    ∃ frames pc, m.framesOf save.frames = .ok frames ∧ m.addressOf save.position = .ok pc ∧
      restored = { m with
        store := save.vars.restore m.store
        nesting := { m.nesting with frames := frames.reverse }
        pc
        inText := save.inText
        narrow := save.narrow
        pendingHost := none
        ended := false } := by
  obtain ⟨frames, hframes, h⟩ := Action.exists_of_bind_eq_ok h
  obtain ⟨pc, hpc, h⟩ := Action.exists_of_bind_eq_ok h
  cases h
  exact ⟨frames, pc, hframes, hpc, rfl⟩

/-- A game that cannot be loaded leaves everything as it was. -/
theorem atomic_loadSlot (slot : Int32) : Action.Atomic (loadSlot slot) := by
  refine .get fun m => .ofExcept_bind fun _ => ?_
  split
  · exact .throw _
  · exact .ofExcept_bind fun save => .ofExcept_bind fun restored => .set restored

/-- What a machine is made of whose persistent files were loaded. -/
theorem loadPersistent_eq_ok {m loaded : Machine} (h : m.loadPersistent = .ok loaded) :
    ∃ labelLog fileLog store, m.loadLog labelLogFile m.labelLog = .ok labelLog ∧
      m.loadLog fileLogFile m.fileLog = .ok fileLog ∧ m.loadGlobals = .ok store ∧
      loaded = { m with marks := m.loadMarks, labelLog, fileLog, store } := by
  obtain ⟨labelLog, hlabelLog, h⟩ := Action.exists_of_bind_eq_ok h
  obtain ⟨fileLog, hfileLog, h⟩ := Action.exists_of_bind_eq_ok h
  obtain ⟨store, hstore, h⟩ := Action.exists_of_bind_eq_ok h
  cases h
  exact ⟨labelLog, fileLog, store, hlabelLog, hfileLog, hstore, rfl⟩

/-- A machine is loaded if its logs and its global variables are. -/
theorem loadPersistent_of_ok {m : Machine} {labelLog fileLog : NameLog} {store : Store}
    (hlabelLog : m.loadLog labelLogFile m.labelLog = .ok labelLog)
    (hfileLog : m.loadLog fileLogFile m.fileLog = .ok fileLog) (hstore : m.loadGlobals = .ok store) :
    m.loadPersistent = .ok { m with marks := m.loadMarks, labelLog, fileLog, store } := by
  rw [loadPersistent, hlabelLog, hfileLog, hstore]
  rfl

end NovelScript.Machine
