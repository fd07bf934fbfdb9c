import NovelScript.Proofs.Machine.Naming
import NovelScript.Proofs.Operand.Skipping

/-!
# Starting at a label

The host can let execution go on at a label. That leaves any text, and nothing else: a command of
the host that is pending stays pending, and a script that has ended stays ended. So the next step
executes the label only if neither is the case. A pending command takes the line of the label for
operands that are left, and passes over it.
-/

namespace NovelScript

/-! ## Lines with nothing but a label -/

namespace Byte

/-- A byte that may stand on a line with nothing but a label. -/
def onLabelLine (b : UInt8) : Bool :=
  isBlank b || b == asterisk || isNameByte b

/-- A byte at which passing over a statement does not just go on. -/
def stopsPassing (b : UInt8) : Bool :=
  b == newline || b == colon || b == quote

private theorem ne_newline_of_not_stopsPassing {b : UInt8} (h : stopsPassing b = false) :
    (b == newline) = false := by
  simp only [stopsPassing, Bool.or_eq_false_iff] at h
  exact h.1.1

/-- The bytes of a line with nothing but a label are passed over one by one. -/
theorem passed_of_onLabelLine {b : UInt8} (h : onLabelLine b = true) :
    b < 0x80 ∧ stopsPassing b = false := by
  have hall : ∀ n : Fin 256, onLabelLine (UInt8.ofFin n) = true →
      UInt8.ofFin n < 0x80 ∧ stopsPassing (UInt8.ofFin n) = false := by
    decide +kernel
  exact hall b.toFin h

end Byte

namespace Script

variable {s : Script} {pos : Nat} {tags : Bool} {line rest : Bytes}

/-- Scanning in steps of characters passes over a front of ASCII bytes at which it does not stop, if
it stops at what comes after them. -/
theorem advanceChars_append {stop : UInt8 → Bool} (hahead : s.ahead pos = line ++ rest)
    (hline : ∀ b ∈ line, b < 0x80 ∧ stop b = false) (hrest : ∀ b ∈ rest.head?, stop b = true)
    (narrow : Bool) : s.advanceChars narrow stop pos = pos + line.length := by
  induction line generalizing pos with
  | nil =>
    have hhead : s.byte? pos = rest.head? := by rw [byte?_eq_head?, hahead, List.nil_append]
    rw [List.length_nil, Nat.add_zero]
    cases hb : s.byte? pos with
    | none => rw [advanceChars, dif_neg (Nat.not_lt.mpr (Array.getElem?_eq_none_iff.mp hb))]
    | some b => rw [advanceChars_of_byte? hb, if_pos (hrest b (hhead.symm.trans hb))]
  | cons b line ih =>
    obtain ⟨⟨hascii, hgo⟩, htail⟩ := List.forall_mem_cons.mp hline
    have hbyte : s.byte? pos = some b := by
      rw [byte?_eq_head?, hahead]
      rfl
    rw [advanceChars_of_byte? hbyte, hgo, if_neg Bool.false_ne_true, charWidth_ascii hbyte hascii,
      ih (ahead_succ hahead) htail, List.length_cons, Nat.add_assoc, Nat.add_comm 1]

/-- From an address on, its line holds a label with blanks around it, and nothing else. -/
def LabelAlone (s : Script) (pos : Nat) : Prop :=
  ∃ before written after rest : Bytes,
    s.ahead pos = before ++ Byte.asterisk :: (written ++ (after ++ rest)) ∧
      (∀ b ∈ before ++ after, Byte.isBlank b = true) ∧
      written ≠ [] ∧ (∀ b ∈ written, Byte.isNameByte b = true) ∧
      ∀ b ∈ rest.head?, b = Byte.newline

namespace LabelAlone

private theorem le_size (h : s.LabelAlone pos) : pos ≤ s.size := by
  obtain ⟨before, written, after, rest, hahead, -⟩ := h
  have hlength := length_ahead s pos
  rw [hahead, List.length_append, List.length_cons] at hlength
  omega

/-- The bytes of such a line. -/
theorem exists_line (h : s.LabelAlone pos) : ∃ line rest, s.ahead pos = line ++ rest ∧
    (∀ b ∈ line, Byte.onLabelLine b = true) ∧ ∀ b ∈ rest.head?, b = Byte.newline := by
  obtain ⟨before, written, after, rest, hahead, hblanks, -, hwritten, hrest⟩ := h
  refine ⟨before ++ Byte.asterisk :: (written ++ after), rest, ?_, fun b hb => ?_, hrest⟩
  · rw [hahead, List.append_assoc, List.cons_append, List.append_assoc]
  · simp only [List.mem_append, List.mem_cons] at hb hblanks
    simp only [Byte.onLabelLine, Bool.or_eq_true, beq_iff_eq]
    rcases hb with hb | rfl | hb | hb
    · exact .inl (.inl (hblanks b (.inl hb)))
    · exact .inl (.inr rfl)
    · exact .inr (hwritten b hb)
    · exact .inl (.inl (hblanks b (.inr hb)))

/-- Reading to the newline in steps of characters finds the end of the line. -/
theorem skipToLineEnd_eq (h : s.LabelAlone pos) : s.skipToLineEnd false pos = s.lineEnd pos := by
  obtain ⟨line, rest, hahead, hline, hrest⟩ := h.exists_line
  have hgo : ∀ b ∈ line, b < 0x80 ∧ (b == Byte.newline) = false := fun b hb =>
    have hpassed := Byte.passed_of_onLabelLine (hline b hb)
    ⟨hpassed.1, Byte.ne_newline_of_not_stopsPassing hpassed.2⟩
  have hstop : ∀ b ∈ rest.head?, (b == Byte.newline) = true := fun b hb =>
    beq_iff_eq.mpr (hrest b hb)
  rw [skipToLineEnd, advanceChars_append hahead hgo hstop, lineEnd, Nat.min_eq_left h.le_size]
  refine (advanceWhile_append hahead (fun b hb => ?_) fun b hb => ?_).symm
  · rw [bne, (hgo b hb).2, Bool.not_false]
  · rw [bne, hstop b hb, Bool.not_true]

/-- So does passing over a statement. -/
theorem skipStatement_eq (h : s.LabelAlone pos) : s.skipStatement false pos = s.lineEnd pos := by
  obtain ⟨line, rest, hahead, hline, hrest⟩ := h.exists_line
  have hpassed := fun b hb => Byte.passed_of_onLabelLine (hline b hb)
  have hscan : s.advanceChars false Byte.stopsPassing pos = s.skipToLineEnd false pos := by
    rw [skipToLineEnd, advanceChars_append hahead hpassed, advanceChars_append hahead]
    · exact fun b hb => ⟨(hpassed b hb).1, Byte.ne_newline_of_not_stopsPassing (hpassed b hb).2⟩
    · exact fun b hb => beq_iff_eq.mpr (hrest b hb)
    · exact fun b hb => hrest b hb ▸ rfl
  rw [skipStatement,
    ← skipStatementFrom_advanceChars (p := Byte.stopsPassing) rfl (fun _ => rfl) rfl, hscan,
    skipStatementFrom_eq_self, h.skipToLineEnd_eq]
  exact fun b hb => beq_iff_eq.mp (s.byte?_advanceChars false (· == Byte.newline) pos b hb)

/-- Behind the blanks at its beginning there is more of the statement. -/
theorem not_atStatementEnd (h : s.LabelAlone pos) :
    s.atStatementEnd (s.skipBlanks pos) = false := by
  obtain ⟨before, written, after, rest, hahead, hblanks, -⟩ := h
  have hskip : s.skipBlanks pos = pos + before.length := by
    refine advanceWhile_append hahead (fun b hb => ?_) fun b hb => ?_
    · exact hblanks b (List.mem_append_left _ hb)
    obtain rfl : Byte.asterisk = b := by simpa using hb
    rfl
  rw [hskip, atStatementEnd, byte?_eq_head?, ahead_add_length hahead]
  rfl

end LabelAlone

/-- The statement of a label goes on at the end of its line. -/
theorem next_of_label {name : String} (hpos : pos ≤ s.size)
    (h : (s.statementAt pos tags).kind = .label name) :
    (s.statementAt pos tags).next = s.skipToLineEnd false pos := by
  have hscans := s.lineScans_walks hpos false
  have hstart := hscans.skipSeparators .start
  revert h
  rw [statementAt]
  generalize s.skipSeparators (min pos s.size) = start at hstart ⊢
  dsimp only
  split
  · rintro ⟨⟩
  · next b hb =>
    split_ifs with _ _ hmark
    · rintro ⟨⟩
    · rintro ⟨⟩
    · intro _
      obtain ⟨hasterisk, -⟩ := Bool.and_eq_true_iff.mp hmark
      have hnext : s.Walks false pos (start + 1) :=
        hscans.isAt (by rw [isAt, hb]; exact hasterisk) (by decide) hstart
      exact (hscans.getD_name? hnext).skipToLineEnd_eq
    · rintro ⟨⟩
    · rw [kind_tagAt]
      rintro ⟨⟩
    all_goals rintro ⟨⟩

/-- At the end of a line there is nothing but a newline. -/
theorem statementAt_lineEnd (s : Script) (pos : Nat) (tags : Bool) :
    (s.statementAt (s.lineEnd pos) tags).kind = .endOfScript ∨
      (s.statementAt (s.lineEnd pos) tags).kind = .endOfLine ∧
        (s.statementAt (s.lineEnd pos) tags).next = s.lineEnd pos + 1 := by
  have hle : s.lineEnd pos ≤ s.size := advanceWhile_le_size s _ (Nat.min_le_right _ _)
  have hbyte : ∀ b ∈ s.byte? (s.lineEnd pos), b = Byte.newline := by
    intro b hb
    have hstop := s.holdsAt_advanceWhile (· != Byte.newline) (min pos s.size)
    rw [← lineEnd, holdsAt, hb] at hstop
    simpa using hstop
  have hstart : s.skipSeparators (min (s.lineEnd pos) s.size) = s.lineEnd pos := by
    have hahead : s.ahead (s.lineEnd pos) = [] ++ s.ahead (s.lineEnd pos) := rfl
    rw [Nat.min_eq_left hle]
    refine advanceWhile_append hahead (by simp) fun b hb => ?_
    rw [hbyte b ((byte?_eq_head? s _).trans hb)]
    decide
  rw [statementAt, hstart]
  cases hb : s.byte? (s.lineEnd pos) with
  | none => exact .inl rfl
  | some b =>
    obtain rfl := hbyte b hb
    exact .inr ⟨rfl, rfl⟩

end Script

/-! ## Steps -/

namespace Machine

variable {m passed : Machine} {label : Label} {name : String} {written : Bytes}

/-- The machine that has gone to a label. -/
def atLabel (m : Machine) (label : Label) : Machine :=
  { m with pc := label.start, inText := false }

/-- The machine behind the statement of a label. The name that is recorded is the one that readers
find, and they find none where it begins with a digit. -/
def behindLabel (m : Machine) (label : Label) : Machine :=
  { m with
    statementStart := (m.script.statementAt label.start m.pretextHook.isSome).start
    statementName := none
    labelLog := m.labelLog.record (if Label.isNumbered label.name then "" else label.name)
    pc := m.script.lineEnd label.start }

/-- The next step executes the statement of a label: it goes on at the end of the line, without a
warning, and the label is recorded if the log is on. -/
structure Passes (m : Machine) (label : Label) (passed : Machine) : Prop where
  /-- The step goes on. -/
  goesOn : step m = .ok .continued passed
  /-- There is no warning. -/
  quiet : passed.warningCount = m.warningCount ∧ passed.journal = m.journal
  /-- It comes to the end of the line. -/
  pc : passed.pc = m.script.lineEnd label.start
  /-- It records the name. -/
  recorded : passed.labelLog = m.labelLog.record label.name

/-- A step onto a label that stands alone on its line executes the statement of the label. -/
theorem step_of_labelAlone (harrived : m.ArrivedAt label.start)
    (halone : m.script.LabelAlone label.start) (hspelled : m.script.SpellsLabel label.start written)
    (hname : Bytes.toName written = label.name) :
    step m = .ok .continued (m.behindLabel label) := by
  have hkind := Script.kind_of_spellsLabel hspelled m.pretextHook.isSome
  have hnext := (Script.next_of_label halone.le_size hkind).trans halone.skipToLineEnd_eq
  rw [hname] at hkind
  rw [← harrived.pc] at hkind hnext
  rw [harrived.step_eq, located, runStatement_of_label hkind, behindLabel, hnext, harrived.pc]

/-- After the end of the script a step does nothing. -/
theorem step_of_ended (hpending : m.pendingHost = none) (hended : m.ended = true) :
    step m = .ok .ended m := by
  rw [step_of_not_pending (by simp [hpending])]
  show (if m.ended then _ else _ : Located Event) m = _
  rw [if_pos hended]
  rfl

/-- To a command that is finished there, such a line is operands that are left. -/
theorem endStatement_of_labelAlone (halone : m.script.LabelAlone m.pc) :
    endStatement m = warn .extraOperands { m with pc := m.script.lineEnd m.pc } := by
  have hcursor : m.cursor = m.pc := Nat.min_eq_left halone.le_size
  rw [endStatement, Action.get_bind]
  simp only [hcursor, halone.not_atStatementEnd, Script.skipStatement_skipBlanks,
    halone.skipStatement_eq]
  rfl

/-- In strict mode a warning is a fault. -/
theorem warn_of_strict (warning : Warning) (h : m.settings.strict = true) :
    warn warning m = .error (.warning warning) m := by
  rw [warn, Action.get_bind, if_pos h]
  rfl

/-- A command of the host that is pending is not pending any more once it is finished. -/
theorem finishCommand_of_pending (outcome : Outcome) (hpending : m.pendingHost.isSome) :
    finishCommand outcome m = located (complete outcome) { m with pendingHost := none } := by
  rw [finishCommand, Action.get_bind, if_pos hpending]
  rfl

/-- A step in front of such a line passes over it where a command of the host is pending, with a
warning. -/
theorem step_of_pending_labelAlone (hpending : m.pendingHost.isSome)
    (halone : m.script.LabelAlone m.pc) :
    if m.settings.strict then
      ∃ failure after, step m = .error failure after ∧ failure.fault = .warning .extraOperands
    else ∃ journal, step m = step { m with
      pendingHost := none
      pc := m.script.lineEnd m.pc
      warningCount := m.warningCount + 1
      journal } := by
  let idle : Machine := { m with pendingHost := none }
  have hend : endStatement idle =
      warn .extraOperands { idle with pc := m.script.lineEnd m.pc } :=
    endStatement_of_labelAlone (m := idle) halone
  have hfinish : finishCommand .advance m =
      located (endStatement >>= fun _ => pure Event.continued) idle :=
    finishCommand_of_pending .advance hpending
  rw [step_of_pending hpending]
  split
  · next hstrict =>
    rw [located, Action.bind_of_error (hend.trans (warn_of_strict .extraOperands hstrict))]
      at hfinish
    rw [Action.bind_of_error (Action.discard_of_error hfinish)]
    exact ⟨_, _, rfl, rfl⟩
  · next hlenient =>
    obtain ⟨journal, hwarn⟩ := warn_of_not_strict .extraOperands
      (m := { idle with pc := m.script.lineEnd m.pc }) (Bool.not_eq_true _ |>.mp hlenient)
    rw [located, Action.bind_of_ok (hend.trans hwarn)] at hfinish
    refine ⟨journal, ?_⟩
    rw [Action.bind_of_ok (Action.discard_of_ok hfinish), step_of_not_pending (by simp)]

/-- A step at the end of a line that goes on goes on with the next line. -/
theorem pc_of_step_lineEnd {addr : Nat} (hpending : m.pendingHost = none) (htext : m.inText = false)
    (haddr : m.pc = m.script.lineEnd addr) (hstep : step m = .ok .continued passed) :
    passed.pc = m.pc + 1 := by
  cases hended : m.ended with
  | true =>
    rw [step_of_ended hpending hended] at hstep
    cases hstep
  | false =>
    rw [ArrivedAt.step_eq ⟨rfl, hpending, hended, htext⟩] at hstep
    have hrun : (warnAll (m.script.statementAt m.pc m.pretextHook.isSome).warnings >>= fun _ => _ :
        Run Event) _ = _ := located_eq_ok hstep
    obtain ⟨_, begun, -, hrest⟩ := Action.exists_of_run_eq_ok hrun
    have hstatement := m.script.statementAt_lineEnd addr m.pretextHook.isSome
    rw [← haddr] at hstatement
    rcases hstatement with hkind | ⟨hkind, hnext⟩
    · rw [hkind] at hrest
      obtain ⟨_, _, -, hevent⟩ := Action.exists_of_run_eq_ok hrest
      cases hevent
    · rw [hkind] at hrest
      cases hrest
      exact hnext

/-- A command that is pending keeps the next step from executing the label. -/
theorem not_passes_of_pending (hpending : m.pendingHost.isSome)
    (halone : m.script.LabelAlone label.start) : ¬ (m.atLabel label).Passes label passed := by
  rintro ⟨hgoesOn, -, hpc, -⟩
  have hstep := step_of_pending_labelAlone (m := m.atLabel label) hpending halone
  split at hstep
  · obtain ⟨failure, after, hfails, -⟩ := hstep
    cases hfails.symm.trans hgoesOn
  · -- The step goes on behind the line, and so does not stop at its end.
    obtain ⟨journal, hbehind⟩ := hstep
    have hnext := pc_of_step_lineEnd rfl rfl rfl (hbehind.symm.trans hgoesOn)
    exact absurd (hnext.symm.trans hpc) (Nat.succ_ne_self _)

/-- **Starting at a label takes effect exactly if no command of the host is pending and the script
has not ended.** In the middle of text and inside calls, too, the next step then executes the label,
but it records the name only if that does not begin with a digit. After the end of the script the
next step does nothing. A command that is pending takes the line of the label for operands that are
left: that is a fault in strict mode, and a warning otherwise, and then the step goes on behind the
label. -/
theorem startAt_passes_iff (hm : Reachable m) (hname : m.labels.byName name = .ok label)
    (halone : m.script.LabelAlone label.start) :
    startAt name m = .ok () (m.atLabel label) ∧
      ((∃ passed, (m.atLabel label).Passes label passed) ↔
        m.pendingHost = none ∧ m.ended = false ∧
          (Label.isNumbered label.name = true →
            m.labelLog.record "" = m.labelLog.record label.name)) ∧
      (m.pendingHost = none → m.ended = false →
        step (m.atLabel label) = .ok .continued ((m.atLabel label).behindLabel label)) ∧
      (m.pendingHost = none → m.ended = true →
        step (m.atLabel label) = .ok .ended (m.atLabel label)) ∧
      (m.pendingHost.isSome →
        if m.settings.strict then
          ∃ failure after, step (m.atLabel label) = .error failure after ∧
            failure.fault = .warning .extraOperands
        else ∃ journal, step (m.atLabel label) = step { m.atLabel label with
          pendingHost := none
          pc := m.script.lineEnd label.start
          warningCount := m.warningCount + 1
          journal }) := by
  have hstart : startAt name m = .ok () (m.atLabel label) := by
    show (Action.ofExcept (m.labels.byName name) >>= _ : Run Unit) m = _
    rw [hname]
    rfl
  rw [show m.labels = _ from hm.inside.labels] at hname
  obtain ⟨written, hspelled, hwritten⟩ :=
    (LabelTable.defines_of_mem_build (LabelTable.mem_of_byName hname)).1.spelled
  have hruns (hnone : m.pendingHost = none) (hended : m.ended = false) :
      step (m.atLabel label) = .ok .continued ((m.atLabel label).behindLabel label) :=
    step_of_labelAlone ⟨rfl, hnone, hended, rfl⟩ halone hspelled hwritten
  have hstops (hnone : m.pendingHost = none) (hended : m.ended = true) :
      step (m.atLabel label) = .ok .ended (m.atLabel label) :=
    step_of_ended (m := m.atLabel label) hnone hended
  refine ⟨hstart, ⟨?_, ?_⟩, hruns, hstops, fun hpending => ?_⟩
  · rintro ⟨passed, hpasses⟩
    have hnone : m.pendingHost = none := by
      by_contra hsome
      exact not_passes_of_pending (Option.isSome_iff_ne_none.mpr hsome) halone hpasses
    have hended : m.ended = false := by
      by_contra hended
      cases (hstops hnone (Bool.not_eq_false _ |>.mp hended)).symm.trans hpasses.goesOn
    refine ⟨hnone, hended, fun hnumbered => ?_⟩
    cases (hruns hnone hended).symm.trans hpasses.goesOn
    have hrecorded := hpasses.recorded
    rwa [behindLabel, if_pos hnumbered] at hrecorded
  · rintro ⟨hnone, hended, hnumbered⟩
    refine ⟨_, hruns hnone hended, ⟨rfl, rfl⟩, rfl, ?_⟩
    rw [behindLabel]
    split
    · next hdigit => exact hnumbered hdigit
    · rfl
  · exact step_of_pending_labelAlone (m := m.atLabel label) hpending halone

/-- A script in which the host interrupts a subroutine in the middle of its text. -/
def chattingScript : Script where
  bytes := (Bytes.ofText "labellog\ngosub *talk\nend\n*talk\nHi@there\n  *Scene_2 \nend\n").toArray
  encoding := .utf8

/-- The machine in the middle of the text. -/
def chatting : Machine :=
  ((fresh chattingScript { variableSlots := 8 } .absent).serveAll (List.replicate 6 .step)).2

/-- From there the label is executed, and recorded. -/
theorem startAt_passes_chatting :
    let label : Label := ⟨"scene_2", 40, 5, 2⟩
    Reachable chatting ∧ chatting.labels.byName "Scene_2" = .ok label ∧
      chatting.script.LabelAlone 40 ∧ chatting.inText = true ∧ chatting.nesting.depth = 1 ∧
      startAt "Scene_2" chatting = .ok () (chatting.atLabel label) ∧
      ∃ passed, (chatting.atLabel label).Passes label passed := by
  intro label
  have hload : load chattingScript { variableSlots := 8 } .absent =
      .ok (fresh chattingScript { variableSlots := 8 } .absent) := rfl
  have hreachable : Reachable chatting := (Reachable.load hload).serveAll _
  have halone : chatting.script.LabelAlone 40 := by
    refine ⟨[Byte.space, Byte.space], Bytes.ofText "Scene_2", [Byte.space],
      Bytes.ofText "\nend\n", ?_⟩
    decide +kernel
  obtain ⟨hname, htext, hone, hgoes⟩ :
      chatting.labels.byName "Scene_2" = .ok label ∧ chatting.inText = true ∧
      chatting.nesting.depth = 1 ∧
      chatting.pendingHost = none ∧ chatting.ended = false ∧
        (Label.isNumbered label.name = true →
          chatting.labelLog.record "" = chatting.labelLog.record label.name) := by decide +kernel
  obtain ⟨hstart, hiff, -⟩ := startAt_passes_iff hreachable hname halone
  exact ⟨hreachable, hname, halone, htext, hone, hstart, hiff.mpr hgoes⟩

/-- A script that waits for the host, and then ends. -/
def waitingScript : Script where
  bytes := (Bytes.ofText "bg `a`\nend\n*next\nend\n").toArray
  encoding := .utf8

/-- The machine whose command of the host is pending. -/
def waiting : Machine :=
  ((fresh waitingScript { variableSlots := 8 } .absent).serveAll [.registerHost "bg", .step]).2

/-- The machine whose script has ended. -/
def stopped : Machine := (waiting.serveAll [.readStr, .step, .step]).2

/-- While the command is pending the label is passed over with a warning, and after the end nothing
happens any more. -/
theorem startAt_without_effect :
    Reachable waiting ∧ Reachable stopped ∧ waitingScript.LabelAlone 11 ∧
      (⟨"next", 11, 2, 2⟩ : Label) ∈ (LabelTable.build waitingScript).1.labels ∧
      (waiting.serveAll [.startAt "next", .step]).1 = [.ok .done, .ok (.event .continued)] ∧
      (waiting.serveAll [.startAt "next", .step]).2.warningCount = waiting.warningCount + 1 ∧
      (waiting.serveAll [.startAt "next", .step]).2.pc = 17 ∧
      (stopped.serveAll [.startAt "next", .step]).1 = [.ok .done, .ok (.event .ended)] ∧
      (stopped.serveAll [.startAt "next", .step]).2.pc = 11 := by
  have hload : load waitingScript { variableSlots := 8 } .absent =
      .ok (fresh waitingScript { variableSlots := 8 } .absent) := rfl
  have hwaiting : Reachable waiting := (Reachable.load hload).serveAll _
  have halone : waitingScript.LabelAlone 11 := by
    refine ⟨[], Bytes.ofText "next", [], Bytes.ofText "\nend\n", ?_⟩
    decide +kernel
  refine ⟨hwaiting, hwaiting.serveAll _, halone, ?_⟩
  decide +kernel

end Machine

end NovelScript
