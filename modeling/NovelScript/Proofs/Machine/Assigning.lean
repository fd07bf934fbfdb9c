import NovelScript.Proofs.Machine.Reachable
import NovelScript.Proofs.Machine.Upcoming
import NovelScript.Proofs.Operand.Assignments
import NovelScript.Proofs.Script.LoopEnd

/-!
# Lines that are executed as assignments

A line that starts with a variable should be an assignment if a single equals sign follows the
variable, and text otherwise. It is an assignment, too, if words, sigils or bracketed text stand
between the variable and the equals sign, so that such a line of text changes the variable with
which it starts.
-/

namespace NovelScript

/-- Whether the statement is an assignment. -/
def Statement.isAssignment (statement : Statement) : Bool :=
  match statement.kind with
  | .command word => word.assignment
  | _ => false

namespace Script

variable {s : Script} {addr pos : Nat} {tags : Bool}

/-- Whether an equals sign stands at an address, and not two of them. -/
def singleEquals (s : Script) (pos : Nat) : Bool :=
  s.isAt pos Byte.equals && !s.isAt (pos + 1) Byte.equals

/-- From an address on, there are first words, sigils or bracketed text, and then a single equals
sign. -/
def EqualsLater (s : Script) (pos : Nat) : Prop :=
  pos < s.targetEnd 0 pos ∧ s.singleEquals (s.targetEnd 0 pos) = true

/-- At an equals sign the scan over a target ends. -/
theorem targetEnd_of_singleEquals (h : s.singleEquals pos = true) : s.targetEnd 0 pos = pos := by
  have hat : s.isAt pos Byte.equals = true := (Bool.and_eq_true_iff.mp h).1
  rw [targetEnd_of_byte? (beq_iff_eq.mp hat), if_neg (by decide), if_neg (by decide),
    if_neg (by decide)]

/-- The scan over a target comes to a single equals sign, at once or later. -/
theorem singleEquals_targetEnd_iff : s.singleEquals (s.targetEnd 0 pos) = true ↔
    s.singleEquals pos = true ∨ s.EqualsLater pos := by
  constructor
  · intro h
    rcases Nat.eq_or_lt_of_le (s.le_targetEnd 0 pos) with heq | hlt
    · exact .inl (heq ▸ h)
    · exact .inr ⟨hlt, h⟩
  · rintro (h | h)
    · rwa [targetEnd_of_singleEquals h]
    · exact h.2

/-- The word of an assignment. -/
def assignmentWord : CommandWord :=
  { name := "mov", forced := true, assignment := true }

/-- A statement that starts with a sigil is an assignment or text. -/
theorem statementAt_of_isSigil
    (h : s.holdsAt (s.statementAt addr tags).start Byte.isSigil = true) :
    s.statementAt addr tags =
      { kind := if s.isAssignment (s.statementAt addr tags).start then .command assignmentWord
          else .text
        start := (s.statementAt addr tags).start
        next := (s.statementAt addr tags).start } := by
  rw [start_statementAt] at h ⊢
  obtain ⟨b, hb, hsigil⟩ := (Option.any_eq_true _ _).mp h
  have hother : b ≠ Byte.newline ∧ b ≠ Byte.semicolon ∧ b ≠ Byte.asterisk ∧ b ≠ Byte.tilde ∧
      b ≠ Byte.leftBracket ∧ b ≠ Byte.underscore ∧ Byte.isAlpha b = false := by
    simp only [Byte.isSigil, Bool.or_eq_true, beq_iff_eq] at hsigil
    rcases hsigil with (rfl | rfl) | rfl <;> decide
  obtain ⟨hnewline, hsemicolon, hasterisk, htilde, hbracket, hunderscore, halpha⟩ := hother
  rw [statementAt]
  simp only [hb, beq_iff_eq, hnewline, hsemicolon, htilde, halpha, hsigil,
    beq_eq_false_iff_ne.mpr hasterisk, beq_eq_false_iff_ne.mpr hbracket,
    beq_eq_false_iff_ne.mpr hunderscore, Bool.false_and, Bool.true_and, Bool.false_eq_true,
    if_false]
  split <;> rfl

/-- It is an assignment if the scan over its target comes to a single equals sign. -/
theorem isAssignment_statementAt
    (h : s.holdsAt (s.statementAt addr tags).start Byte.isSigil = true) :
    (s.statementAt addr tags).isAssignment =
      s.singleEquals (s.targetEnd 0 (s.statementAt addr tags).start) := by
  have hkind := congrArg Statement.kind (statementAt_of_isSigil h)
  show _ = s.isAssignment (s.statementAt addr tags).start
  rw [Statement.isAssignment, hkind]
  cases s.isAssignment (s.statementAt addr tags).start <;> rfl

end Script

namespace Machine

open NovelScript.Operand (Scope Cursor)

/-- A statement that starts with a sigil is executed as an assignment if it is one. -/
theorem upcoming?_iff_isAssignment {m : Machine} {addr : Nat} (h : m.ArrivedAt addr)
    (hsigil : m.script.holdsAt (m.script.statementAt addr m.pretextHook.isSome).start
      Byte.isSigil = true) :
    m.upcoming? = some (.mov, (m.script.statementAt addr m.pretextHook.isSome).start) ↔
      (m.script.statementAt addr m.pretextHook.isSome).isAssignment = true := by
  have hstatement := Script.statementAt_of_isSigil hsigil
  rw [← h.pc] at hstatement ⊢
  have hkind := congrArg Statement.kind hstatement
  have hnext := congrArg Statement.next hstatement
  cases hassignment : m.script.isAssignment
      (m.script.statementAt m.pc m.pretextHook.isSome).start with
  | true =>
    rw [hassignment, if_pos rfl] at hkind
    have hresolve : m.commands.resolve Script.assignmentWord = .builtin .mov := rfl
    have hcommand := upcoming?_of_builtin h.pending h.running h.statement hkind hresolve
    rw [hnext] at hcommand
    exact iff_of_true hcommand (by rw [Statement.isAssignment, hkind]; rfl)
  | false =>
    rw [hassignment, if_neg Bool.false_ne_true] at hkind
    refine iff_of_false (fun hcommand => ?_) (by rw [Statement.isAssignment, hkind]; nofun)
    obtain ⟨settled, hsettled, -, -, hthere⟩ := settled_of_upcoming? hcommand
    have hsame : settled = m := by
      rw [settled?, h.pending] at hsettled
      exact (Option.some.inj hsettled).symm
    obtain ⟨word, hword, -⟩ := word_of_statementCommand? hthere
    rw [hsame, hkind] at hword
    cases hword

/-- **What makes a line that starts with a variable an assignment**, and what a step at it executes
as one: a single equals sign follows the variable, or follows words, sigils or bracketed text behind
it. So the lines that are assignments are those that read as one exactly if no such text comes in
between. -/
theorem assignment_iff_equals_follows {scope : Scope} {addr start : Nat} {tags : Bool}
    {target : VariableRef} {after : Cursor}
    (hstart : (scope.script.statementAt addr tags).start = start)
    (hsigil : scope.script.holdsAt start Byte.isSigil = true)
    (hread : scope.varRef.run { pos := start } = .ok target after) :
    ((scope.script.statementAt addr tags).isAssignment = true ↔
      scope.script.singleEquals after.pos = true ∨ scope.script.EqualsLater after.pos) ∧
    (((scope.script.statementAt addr tags).isAssignment = true ↔
      scope.script.singleEquals after.pos = true) ↔ ¬ scope.script.EqualsLater after.pos) ∧
    ∀ m : Machine, m.script = scope.script → m.pretextHook.isSome = tags → m.ArrivedAt addr →
      (m.upcoming? = some (.mov, start) ↔
        (scope.script.statementAt addr tags).isAssignment = true) := by
  subst hstart
  have hclass : (scope.script.statementAt addr tags).isAssignment = true ↔
      scope.script.singleEquals after.pos = true ∨ scope.script.EqualsLater after.pos := by
    rw [Script.isAssignment_statementAt hsigil, ← Scope.targetEnd_of_varRef hread]
    exact Script.singleEquals_targetEnd_iff
  refine ⟨hclass, ?_, ?_⟩
  · have hapart : scope.script.EqualsLater after.pos → ¬ scope.script.singleEquals after.pos = true :=
      fun hlater hequals => Nat.ne_of_lt hlater.1 (Script.targetEnd_of_singleEquals hequals).symm
    rw [hclass]
    tauto
  · rintro m hscript rfl harrived
    rw [← hscript] at hsigil ⊢
    exact upcoming?_iff_isAssignment harrived hsigil

/-- An assignment to an element of an array. -/
def elementLine : Script where
  bytes := (Bytes.ofText "?1[%%0 + 1] = 2\n").toArray
  encoding := .utf8

/-- What its operands are read from. -/
def elementScope : Scope :=
  (fresh elementLine { variableSlots := 2 } .absent).scope

/-- The equals sign follows the indices, so that the line is an assignment, and only so. -/
theorem assignment_iff_equals_follows_indices :
    elementScope.varRef.run { pos := 0 } = .ok (.array 1 [1]) { pos := 12 } ∧
      (elementLine.statementAt 0 false).isAssignment = true ∧ ¬ elementLine.EqualsLater 12 := by
  have hread : elementScope.varRef.run { pos := 0 } = .ok (.array 1 [1]) { pos := 12 } := by
    decide +kernel
  have hstart : (elementLine.statementAt 0 false).start = 0 := by decide +kernel
  have hsigil : elementLine.holdsAt 0 Byte.isSigil = true := by decide +kernel
  have hequals : elementLine.singleEquals 12 = true := by decide +kernel
  obtain ⟨hclass, happly, -⟩ := assignment_iff_equals_follows hstart hsigil hread
  have hassignment := hclass.mpr (.inl hequals)
  exact ⟨hread, hassignment, happly.mp (iff_of_true hassignment hequals)⟩

/-- A line of text that begins with a variable and has an equals sign in it. -/
def equationLine : Script where
  bytes := (Bytes.ofText "mov %0,7\n%0 is = you\n").toArray
  encoding := .utf8

/-- The machine in front of this line. -/
def narrating : Machine :=
  ((fresh equationLine { variableSlots := 2 } .absent).serveAll [.step, .step]).2

/-- No equals sign follows the variable, and yet the line is executed as an assignment: the variable
loses its value. -/
theorem text_with_equals_assigns :
    Reachable narrating ∧ narrating.ArrivedAt 9 ∧
    narrating.scope.varRef.run { pos := 9 } = .ok (.int 0) { pos := 12 } ∧
    equationLine.singleEquals 12 = false ∧
    (equationLine.statementAt 9 false).isAssignment = true ∧
    narrating.store.int 0 = 7 ∧ (narrating.serve .step).2.store.int 0 = 0 := by
  have hreachable : Reachable narrating :=
    (Reachable.load (show load equationLine { variableSlots := 2 } .absent = .ok _ from rfl)).serve _
      |>.serve _
  have hread : narrating.scope.varRef.run { pos := 9 } = .ok (.int 0) { pos := 12 } := by
    decide +kernel
  refine ⟨hreachable, ⟨?_, ?_, ?_, ?_⟩, hread, ?_, ?_, ?_, ?_⟩
  all_goals decide +kernel

end Machine

end NovelScript
