import NovelScript.Proofs.Machine.Resuming
import NovelScript.Proofs.Script.StatementEnd

/-!
# Going on after a statement

Calls, loops and saved games record where the statement after the current one starts, while
execution that takes no jump moves there itself. All of them go on at the same statement, unless the
line ends in a comment with a separator in it.
-/

namespace NovelScript.Machine

open NovelScript.Action (Keeps)

variable {m : Machine}

/-! ## What is recorded -/

/-- A frame that could be opened lies above the others. -/
theorem pushFrame_eq_ok {frame : Frame} {m' : Machine} (h : pushFrame frame m = .ok () m') :
    m' = { m with nesting := { m.nesting with frames := frame :: m.nesting.frames } } := by
  change (Action.ofExcept (m.nesting.push frame) >>= _) m = _ at h
  cases hpush : m.nesting.push frame with
  | ok nesting =>
    rw [hpush] at h
    cases h
    rw [push_eq_ok hpush]
  | error fault =>
    rw [hpush] at h
    cases h

/-- A call records the end of the current statement. -/
theorem callLabel_eq_ok {label : String} {outcome : Outcome} {m' : Machine}
    (h : callLabel label m = .ok outcome m') :
    m'.nesting.frames =
      .call { kind := .gosub, returnTo := m.statementEnd m.pc } :: m.nesting.frames := by
  change (pushFrame _ >>= _) m = _ at h
  obtain ⟨_, opened, hpush, h⟩ := Action.exists_of_run_eq_ok h
  obtain ⟨_, jumped, hjump, h⟩ := Action.exists_of_run_eq_ok h
  cases h
  have hframes : Keeps (·.nesting.frames = opened.nesting.frames) (jumpTo label) :=
    .get fun _ _ => .ofExcept_bind fun _ _ => .modify fun _ h => h
  have hsame := hframes rfl
  rw [Action.after_of_ok hjump] at hsame
  rw [hsame, pushFrame_eq_ok hpush]

/-- A loop that runs its body records the end of the current statement. -/
theorem yields_openLoop : Action.Yields openLoop fun outcome m => outcome = .advance →
    ∃ loop frames, m.nesting.frames = .loop loop :: frames ∧ loop.body = m.statementEnd m.pc := by
  refine .bind fun counter => .bind fun _ => .bind fun start => .bind fun _ => .ite ?_ .fail
  refine .bind fun bound => .bind fun _ => .join fun step => .ite .fail ?_
  refine .bind fun _ => .bind fun value => .look fun m outcome m' h => ?_
  dsimp only at h
  split at h
  · -- The body is passed over, and the loop goes on at its end.
    obtain ⟨found, _, -, h⟩ := Action.exists_of_run_eq_ok h
    obtain ⟨_, _, -, h⟩ := Action.exists_of_run_eq_ok h
    obtain ⟨_, _, -, h⟩ := Action.exists_of_run_eq_ok h
    cases h
    intro houtcome
    cases houtcome
  · obtain ⟨_, opened, hpush, h⟩ := Action.exists_of_run_eq_ok h
    cases h
    rw [pushFrame_eq_ok hpush]
    exact fun _ => ⟨_, _, rfl, rfl⟩

/-- A saved game goes on at the address that was saved. -/
theorem pc_of_restore_snapshot {t t' : Machine} (hm : Reachable m) (ht : Reachable t)
    (hscript : t.script = m.script) (hsize : m.script.size < 2 ^ 31) {addr : Nat}
    (haddr : addr ≤ m.script.size) {description : Option Bytes}
    (h : t.restore (m.snapshot addr description) = .ok t') : t'.pc = addr := by
  obtain ⟨frames, pc, -, hpc, rfl⟩ := restore_eq_ok h
  have hfound := addressOf_positionOf (sameScript_of_reachable hm ht hscript) hsize haddr
  cases hfound.symm.trans hpc
  rfl

/-! ## Going on -/

/-- Execution goes on after a statement without warnings if no operand is left. -/
theorem endStatement_of_hasMore_eq_false (h : m.hasMore = false) :
    endStatement m = .ok () { m with pc := m.script.afterStatement m.cursor } := by
  have hend : m.script.atStatementEnd (m.script.skipBlanks m.cursor) = true := by
    simpa [hasMore] using h
  show (if (!m.script.atStatementEnd (m.script.skipBlanks m.cursor) ||
    m.script.isAt (m.script.skipBlanks m.cursor) Byte.colon) = true then _ else _ : Run Unit) m = _
  rw [hend, Script.afterStatement]
  cases m.script.isAt (m.script.skipBlanks m.cursor) Byte.colon <;> rfl

private theorem pc_endStatement (h : m.hasMore = false) :
    (Action.after endStatement m).pc = m.script.afterStatement m.cursor := by
  rw [Action.after_of_ok (endStatement_of_hasMore_eq_false h)]

/-- Everything that goes on after the current statement goes on where execution without a jump
does. -/
structure GoesOnAlike (m : Machine) (tags : Bool) : Prop where
  /-- The end of the statement that is computed ahead leads to the same next statement. -/
  ahead : m.script.nextStatement tags (m.statementEnd m.pc) =
    m.script.nextStatement tags (Action.after endStatement m).pc
  /-- So does the return from a call that the statement opens. -/
  call : ∀ label outcome m', callLabel label m = .ok outcome m' → ∃ returnTo,
    m'.nesting.frames = .call { kind := .gosub, returnTo } :: m.nesting.frames ∧
    m.script.nextStatement tags returnTo =
      m.script.nextStatement tags (Action.after endStatement m).pc
  /-- So does every further pass of a loop that the statement has opened. -/
  loop : ∀ first, openLoop first = .ok .advance m → ∃ loop frames,
    m.nesting.frames = .loop loop :: frames ∧
    m.script.nextStatement tags loop.body =
      m.script.nextStatement tags (Action.after endStatement m).pc
  /-- So does a game that was saved by the statement. -/
  save : m.script.size < 2 ^ 31 → ∀ t t' description, Reachable t → t.script = m.script →
    t.restore (m.snapshot (m.statementEnd m.pc) description) = .ok t' →
    m.script.nextStatement tags t'.pc =
      m.script.nextStatement tags (Action.after endStatement m).pc

/-- **What goes on after a statement goes on at the statement that execution would come to.** The
statement ends after the operands that were read, and if its line ends in a comment, there is no
separator in it. -/
theorem goesOnAlike_of_unbrokenComment (hm : Reachable m) (hend : m.hasMore = false)
    (hcomment : m.script.unbrokenComment (m.script.skipBlanks m.cursor) = true) (tags : Bool) :
    m.GoesOnAlike tags := by
  have hstatement : m.script.atStatementEnd (m.script.skipBlanks m.cursor) = true := by
    simpa [hasMore] using hend
  have hahead : m.script.nextStatement tags (m.statementEnd m.pc) =
      m.script.nextStatement tags (Action.after endStatement m).pc := by
    rw [pc_endStatement hend]
    exact Script.nextStatement_skipStatement hstatement hcomment tags
  constructor
  · exact hahead
  · intro label outcome m' hcall
    exact ⟨_, callLabel_eq_ok hcall, hahead⟩
  · intro first hloop
    obtain ⟨loop, frames, hframes, hbody⟩ := yields_openLoop first .advance m hloop rfl
    exact ⟨loop, frames, hframes, hbody ▸ hahead⟩
  · intro hsize t t' description ht hscript hrestore
    have hle : m.statementEnd m.pc ≤ m.script.size :=
      Script.skipStatement_le_size false (Nat.min_le_right _ _)
    rw [pc_of_restore_snapshot hm ht hscript hsize hle hrestore]
    exact hahead

/-- A command of the host at the end of a line with a comment. -/
def commentedCommand : Script where
  bytes := (Bytes.ofText "wait 1 ;note\nend\n").toArray
  encoding := .utf8

/-- The host has read the operand of its command. -/
def operandRead : Machine :=
  ((fresh commentedCommand { variableSlots := 1 } .absent).serveAll
    [.registerHost "wait", .step, .readInt]).2

/-- The command ends in front of the comment, and everything goes on at the next line. -/
theorem goesOnAlike_operandRead :
    Reachable operandRead ∧ operandRead.pc = 7 ∧ operandRead.pendingHost = some "wait" ∧
      operandRead.GoesOnAlike false := by
  have hload : load commentedCommand { variableSlots := 1 } .absent =
      .ok (fresh commentedCommand { variableSlots := 1 } .absent) := rfl
  have hreachable : Reachable operandRead := (Reachable.load hload).serveAll _
  refine ⟨hreachable, by decide +kernel, by decide +kernel, ?_⟩
  exact goesOnAlike_of_unbrokenComment hreachable (by decide +kernel) (by decide +kernel) false

end NovelScript.Machine
