import NovelScript.Machine.Variables
import NovelScript.Proofs.Action
import NovelScript.Proofs.Script.SameText

/-!
# What reading an operand does to a machine

An operand that is read moves the machine behind the comma that may follow it, and its warnings are
counted and logged. Nothing else changes.
-/

namespace NovelScript

/-- Where reading goes on behind an operand: a comma is passed over, and the blanks around it. -/
def Script.behindOperand (s : Script) (pos : Nat) : Nat :=
  s.skipBlanks (s.eat Byte.comma (s.skipBlanks pos))

namespace Script

variable {s : Script} {pos : Nat}

/-- An operand does not end in front of where its blanks begin. -/
theorem le_behindOperand (s : Script) (pos : Nat) : pos ≤ s.behindOperand pos :=
  (s.le_skipBlanks pos).trans ((s.le_eat Byte.comma _).trans (s.le_skipBlanks _))

/-- Behind an operand the cursor is still in the script. -/
theorem behindOperand_le_size (h : pos ≤ s.size) : s.behindOperand pos ≤ s.size :=
  skipBlanks_le_size (eat_le_size _ (skipBlanks_le_size h))

end Script

namespace Machine

open NovelScript.Operand (Scope Reader Cursor)

variable {m m' : Machine} {α : Type}

/-- A warning is counted and logged, unless it is a fault. -/
theorem warn_eq_ok {warning : Warning} (h : warn warning m = .ok () m') :
    m.settings.strict = false ∧
      ∃ journal, m' = { m with warningCount := m.warningCount + 1, journal } := by
  have hwarn : (if m.settings.strict then throw (.warning warning) else _ : Run Unit) m = .ok () m' :=
    h
  split at hwarn
  · cases hwarn
  · next hstrict =>
    cases hwarn
    exact ⟨Bool.not_eq_true _ |>.mp hstrict, _, rfl⟩

/-- Unless warnings are faults, a warning is counted and noted, and nothing else happens. -/
theorem warn_of_not_strict (warning : Warning) (h : m.settings.strict = false) :
    ∃ journal, warn warning m = .ok () { m with warningCount := m.warningCount + 1, journal } := by
  rw [warn, Action.get_bind, h, if_neg Bool.false_ne_true]
  exact ⟨_, rfl⟩

private theorem warnAll_eq_ok {warnings : List Warning} (h : warnAll warnings m = .ok () m') :
    (m.settings.strict = true → warnings = []) ∧
      ∃ journal, m' = { m with warningCount := m.warningCount + warnings.length, journal } := by
  induction warnings generalizing m with
  | nil =>
    cases h
    exact ⟨fun _ => rfl, _, rfl⟩
  | cons warning warnings ih =>
    obtain ⟨_, middle, hwarn, hrest⟩ := Action.exists_of_run_eq_ok h
    obtain ⟨hlenient, journal, rfl⟩ := warn_eq_ok hwarn
    obtain ⟨-, journal', rfl⟩ := ih hrest
    refine ⟨fun hstrict => absurd (hstrict.symm.trans hlenient) (by decide), journal', ?_⟩
    rw [List.length_cons, Nat.add_comm warnings.length, ← Nat.add_assoc]

private theorem warnAll_of_quiet {warnings : List Warning}
    (h : m.settings.strict = true → warnings = []) : ∃ journal, warnAll warnings m =
      .ok () { m with warningCount := m.warningCount + warnings.length, journal } := by
  induction warnings generalizing m with
  | nil => exact ⟨m.journal, rfl⟩
  | cons warning warnings ih =>
    have hlenient : m.settings.strict = false := by
      rw [← Bool.not_eq_true]
      exact fun hstrict => List.cons_ne_nil _ _ (h hstrict)
    obtain ⟨journal, hwarn⟩ := warn_of_not_strict warning hlenient
    obtain ⟨journal', hrest⟩ := ih (m := { m with warningCount := m.warningCount + 1, journal })
      fun hstrict => absurd (hstrict.symm.trans hlenient) (by decide)
    refine ⟨journal', (Action.bind_of_ok hwarn _).trans ?_⟩
    rw [hrest, List.length_cons, Nat.add_comm warnings.length, ← Nat.add_assoc]

/-- What an operand that was read has done. In strict mode it has given no warning. -/
theorem operand_eq_ok {read : Scope → Reader α} {value : α} (h : operand read m = .ok value m') :
    ∃ after journal, read m.scope ⟨m.cursor, []⟩ = .ok value after ∧
      (m.settings.strict = true → after.warnings = []) ∧
      m' = { m with
        pc := m.script.behindOperand after.pos
        warningCount := m.warningCount + after.warnings.length
        journal } := by
  rw [operand, Action.get_bind] at h
  cases hrun : (read m.scope).run { pos := m.cursor } with
  | error fault after =>
    rw [hrun] at h
    obtain ⟨_, middle, -, hthrow⟩ := Action.exists_of_run_eq_ok h
    cases hthrow
  | ok found after =>
    rw [hrun] at h
    obtain ⟨_, middle, hwarn, hrest⟩ := Action.exists_of_run_eq_ok h
    obtain ⟨hquiet, journal, rfl⟩ := warnAll_eq_ok hwarn
    cases hrest
    exact ⟨after, journal, hrun, hquiet, rfl⟩

/-- An operand is read, if its warnings are no faults. -/
theorem operand_of_quiet {read : Scope → Reader α} {value : α} {after : Cursor}
    (hread : read m.scope ⟨m.cursor, []⟩ = .ok value after)
    (hquiet : m.settings.strict = true → after.warnings = []) :
    ∃ journal, operand read m = .ok value { m with
      pc := m.script.behindOperand after.pos
      warningCount := m.warningCount + after.warnings.length
      journal } := by
  have hrun : (read m.scope).run { pos := m.cursor } = .ok value after := hread
  obtain ⟨journal, hwarn⟩ := warnAll_of_quiet hquiet
  refine ⟨journal, ?_⟩
  rw [operand, Action.get_bind, hrun]
  exact Action.bind_of_ok hwarn _

/-- What an operation on the variables has done. -/
theorem updateStore_eq_ok {f : Store → Except Fault Store} (h : updateStore f m = .ok () m') :
    ∃ store, f m.store = .ok store ∧ m' = { m with store } := by
  rw [updateStore, Action.get_bind] at h
  cases hstore : f m.store with
  | error fault =>
    rw [hstore] at h
    cases h
  | ok store =>
    rw [hstore] at h
    cases h
    exact ⟨store, rfl, rfl⟩

end Machine

end NovelScript
