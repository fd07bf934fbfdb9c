import NovelScript.Proofs.Machine.Reachable

/-!
# What a step executes

The next step executes the statement at the address where a pending command of the host is finished.
If that is a built-in command, the step comes down to the execution of the command, after a few
changes outside the core. Only a command that loads a game puts other frames in place of those that
are open.
-/

namespace NovelScript.Machine

open NovelScript.Action (Keeps Leads)

variable {m : Machine} {command : Command} {operands : Nat}

/-- The built-in command at the current address, with the address of its operands. -/
def statementCommand? (m : Machine) : Option (Command × Nat) :=
  let statement := m.script.statementAt m.pc m.pretextHook.isSome
  match statement.kind with
  | .command word =>
    match m.commands.resolve word with
    | .builtin command => some (command, statement.next)
    | _ => none
  | _ => none

/-- The built-in command that the next step executes, with the address of its operands. -/
def upcoming? (m : Machine) : Option (Command × Nat) :=
  match m.settled? with
  | some settled => if settled.ended || settled.inText then none else settled.statementCommand?
  | none => none

/-- Whether a call of the host loads a game: by the command of the script, out of a slot, or from a
saved game at hand. -/
def HostCall.loads (m : Machine) : HostCall → Bool
  | step => m.upcoming?.any fun upcoming => upcoming.1 == .loadgame
  | loadSlot _ | restore _ => true
  | _ => false

/-- The word of a statement that is a built-in command. -/
theorem word_of_statementCommand? (h : m.statementCommand? = some (command, operands)) :
    ∃ word, (m.script.statementAt m.pc m.pretextHook.isSome).kind = .command word ∧
      m.commands.resolve word = .builtin command ∧
      (m.script.statementAt m.pc m.pretextHook.isSome).next = operands := by
  unfold statementCommand? at h
  dsimp only at h
  split at h
  · next word hkind =>
    split at h
    · next found hresolve =>
      cases h
      exact ⟨word, hkind, hresolve, rfl⟩
    · cases h
  · cases h

/-- Operands are inside the script. -/
theorem operands_le_size (h : m.statementCommand? = some (command, operands)) :
    operands ≤ m.script.size := by
  obtain ⟨word, -, -, rfl⟩ := word_of_statementCommand? h
  exact (m.script.statementAt_le_size m.pc m.pretextHook.isSome).2

/-- Only tags are read with warnings. -/
theorem warnings_statementAt (s : Script) (addr : Nat) (tags : Bool) :
    (s.statementAt addr tags).warnings = [] ∨
      ∃ tag, (s.statementAt addr tags).kind = .pretextTag tag := by
  unfold Script.statementAt
  dsimp only
  split
  · exact .inl rfl
  · split_ifs
    all_goals try exact .inl rfl
    unfold Script.tagAt
    dsimp only
    split
    · exact .inr ⟨_, rfl⟩
    · exact .inr ⟨_, rfl⟩

private theorem warnings_of_command {word : CommandWord}
    (hkind : (m.script.statementAt m.pc m.pretextHook.isSome).kind = .command word) :
    (m.script.statementAt m.pc m.pretextHook.isSome).warnings = [] := by
  obtain hnone | ⟨tag, htag⟩ := warnings_statementAt m.script m.pc m.pretextHook.isSome
  · exact hnone
  · cases hkind.symm.trans htag

/-- A statement that is a built-in command comes down to the execution of the command. -/
theorem runStatement_executes {I J : Machine → Prop}
    (hcommand : m.statementCommand? = some (command, operands))
    (hbegin : I { m with
      statementStart := (m.script.statementAt m.pc m.pretextHook.isSome).start
      statementName := none })
    (hname : ∀ m name, I m → I { m with statementName := name })
    (hmarks : ∀ m marks, I m → I { m with marks }) (hIJ : ∀ m, I m → J m)
    (hexecute : Leads I J (do
      moveTo operands
      let outcome ← execute command
      complete outcome)) :
    J (Action.after runStatement m) := by
  unfold statementCommand? at hcommand
  -- The commands stay as they are until the word is looked up among them.
  let Begun (m' : Machine) : Prop := I m' ∧ m'.commands = m.commands
  have hbegun : ∀ m', Begun m' → J m' := fun m' h => hIJ m' h.1
  cases hkind : (m.script.statementAt m.pc m.pretextHook.isSome).kind with
  | command word =>
    simp only [hkind] at hcommand
    have hwarnings : Keeps Begun
        (warnAll (m.script.statementAt m.pc m.pretextHook.isSome).warnings) := by
      rw [warnings_of_command hkind]
      exact .pure _
    refine Leads.keep hbegun hwarnings (fun _ => ?_) ⟨hbegin, rfl⟩
    rw [hkind]
    cases hresolve : m.commands.resolve word with
    | builtin found =>
      simp only [hresolve] at hcommand
      cases hcommand
      refine .keep hbegun (.modify fun m' h => ⟨hname _ _ h.1, h.2⟩) fun _ => ?_
      refine .get fun m' h => ?_
      rw [h.2, hresolve]
      have hmark : Keeps Begun (markRead (m.script.statementAt m.pc m.pretextHook.isSome).start) :=
        keeps_markRead_of (fun _ _ h => ⟨hmarks _ _ h.1, h.2⟩) _
      refine .keep hbegun hmark.discard fun _ m' h => ?_
      exact hexecute h.1
    | subroutine label | host name | unknown =>
      simp only [hresolve] at hcommand
      cases hcommand
  | comment | endOfLine | sectionMarker | label | endOfScript | text | pretextTag =>
    simp only [hkind] at hcommand
    cases hcommand

/-- A statement that begins with a command word comes down to that word. -/
theorem runStatement_of_word {word : CommandWord}
    (hkind : (m.script.statementAt m.pc m.pretextHook.isSome).kind = .command word) :
    runStatement m = runCommand (m.script.statementAt m.pc m.pretextHook.isSome).start
      (m.script.statementAt m.pc m.pretextHook.isSome).next word { m with
        statementStart := (m.script.statementAt m.pc m.pretextHook.isSome).start
        statementName := none } := by
  show (warnAll _ >>= fun _ => _ : Run Event) _ = _
  rw [warnings_of_command hkind, hkind]
  rfl

/-- Marking an address as reached never fails. -/
theorem discard_markRead (m : Machine) (addr : Nat) :
    (discard (markRead addr) : Run Unit) m =
      .ok () { m with marks := if m.settings.trackRead then m.marks.mark addr else m.marks } := by
  have hmark : ∃ seen, markRead addr m =
      .ok seen { m with marks := if m.settings.trackRead then m.marks.mark addr else m.marks } := by
    show ∃ seen, (if m.settings.trackRead then _ else _ : Run Bool) m = _
    split
    · exact ⟨_, rfl⟩
    · exact ⟨_, rfl⟩
  obtain ⟨seen, hmark⟩ := hmark
  exact Action.discard_of_ok hmark

/-- The machine as the built-in command with which the current statement begins is executed. -/
def atCommand (m : Machine) (word : CommandWord) : Machine :=
  let statement := m.script.statementAt m.pc m.pretextHook.isSome
  { m with
    statementStart := statement.start
    statementName := some word.name
    marks := if m.settings.trackRead then m.marks.mark statement.start else m.marks
    pc := statement.next }

/-- Nothing that comes before the execution of a built-in command can fail. -/
theorem runStatement_of_builtin {word : CommandWord}
    (hkind : (m.script.statementAt m.pc m.pretextHook.isSome).kind = .command word)
    (hresolve : m.commands.resolve word = .builtin command) :
    runStatement m = (execute command >>= complete) (m.atCommand word) := by
  let named : Machine := { m with
    statementStart := (m.script.statementAt m.pc m.pretextHook.isSome).start
    statementName := some word.name }
  have hrun : runStatement m = (do
      discard (markRead (m.script.statementAt m.pc m.pretextHook.isSome).start)
      moveTo (m.script.statementAt m.pc m.pretextHook.isSome).next
      let outcome ← execute command
      complete outcome) named := by
    rw [runStatement_of_word hkind]
    show (match m.commands.resolve word with | _ => _ : Run Event) named = _
    rw [hresolve]
  rw [hrun, Action.bind_of_ok (discard_markRead _ _)]
  rfl

/-- The next statement executes its command, with the address behind its name. -/
theorem runStatement_of_command (h : m.statementCommand? = some (command, operands)) :
    ∃ begun : Machine, begun.nesting = m.nesting ∧ begun.script = m.script ∧
      begun.pc = operands ∧ runStatement m = (execute command >>= complete) begun := by
  obtain ⟨word, hkind, hresolve, rfl⟩ := word_of_statementCommand? h
  exact ⟨m.atCommand word, rfl, rfl, rfl, runStatement_of_builtin hkind hresolve⟩

/-- A step of the host has the answer that the machine gives. -/
theorem serve_step (m : Machine) : m.serve .step =
    match step m with
    | .ok event after => (.ok (.event event), after)
    | .error failure after => (.error failure, after) := by
  simp only [serve, HostCall.perform, bind, EStateM.bind]
  cases step m <;> rfl

/-- What a step leaves is what the action leaves. -/
theorem serve_step_snd (m : Machine) : (m.serve .step).2 = Action.after step m := by
  rw [serve_snd]
  exact Action.after_bind_pure step Reply.event m

/-- A step of the host that goes on is a step of the machine that goes on. -/
theorem step_of_serve_eq_continued (h : (m.serve .step).1 = .ok (.event .continued)) :
    step m = .ok .continued (m.serve .step).2 := by
  rw [serve_step] at h ⊢
  cases hstep : step m with
  | ok event after =>
    rw [hstep] at h
    cases h
    rfl
  | error failure after =>
    rw [hstep] at h
    cases h

/-- The statement that the next step executes is where a pending command of the host is
finished. -/
theorem settled_of_upcoming? (h : m.upcoming? = some (command, operands)) :
    ∃ settled, m.settled? = some settled ∧ settled.ended = false ∧ settled.inText = false ∧
      settled.statementCommand? = some (command, operands) := by
  unfold upcoming? at h
  cases hsettled : m.settled? with
  | none =>
    rw [hsettled] at h
    cases h
  | some settled =>
    rw [hsettled] at h
    dsimp only at h
    split at h
    · cases h
    · next hplain =>
      rw [Bool.or_eq_true, not_or, Bool.not_eq_true, Bool.not_eq_true] at hplain
      exact ⟨settled, rfl, hplain.1, hplain.2, h⟩

/-- A built-in command at the current address is executed next, unless something else is pending. -/
theorem upcoming?_of_builtin {word : CommandWord} (hpending : m.pendingHost = none)
    (hended : m.ended = false) (htext : m.inText = false)
    (hkind : (m.script.statementAt m.pc m.pretextHook.isSome).kind = .command word)
    (hresolve : m.commands.resolve word = .builtin command) :
    m.upcoming? = some (command, (m.script.statementAt m.pc m.pretextHook.isSome).next) := by
  have hsettled : m.settled? = some m := by
    rw [settled?, hpending]
    rfl
  rw [upcoming?, hsettled]
  simp only [hended, htext, Bool.or_self, Bool.false_eq_true, if_false, statementCommand?, hkind,
    hresolve]

/-- A machine in which nothing is pending executes the statement at its address. -/
theorem stepSettled_of_statement (hended : m.ended = false) (htext : m.inText = false) :
    stepSettled m = located runStatement m := by
  show (if m.ended then _ else if m.inText then _ else _ : Located Event) m = _
  rw [hended, htext]
  rfl

/-- What succeeds with failures that tell the place is what succeeds without. -/
theorem located_eq_ok {α : Type} {action : Run α} {a : α} {after : Machine}
    (h : located action m = .ok a after) : action m = .ok a after := by
  rw [located] at h
  cases haction : action m with
  | ok b next =>
    rw [haction] at h
    cases h
    rfl
  | error fault next =>
    rw [haction] at h
    cases h

/-- The next step executes the statement at an address. -/
structure ArrivedAt (m : Machine) (addr : Nat) : Prop where
  /-- Execution has come to the address. -/
  pc : m.pc = addr
  /-- No command of the host is pending. -/
  pending : m.pendingHost = none
  /-- The script has not ended. -/
  running : m.ended = false
  /-- The address is not in the middle of text. -/
  statement : m.inText = false

/-- A machine that has arrived at a statement executes it in its next step. -/
theorem ArrivedAt.step_eq {addr : Nat} (h : m.ArrivedAt addr) :
    step m = located runStatement m := by
  have hpending : ¬ m.pendingHost.isSome := by simp [h.pending]
  rw [step_of_not_pending hpending, stepSettled_of_statement h.running h.statement]

/-- The step executes the statement where a pending command of the host is finished. -/
theorem step_of_upcoming? (h : m.upcoming? = some (command, operands)) :
    ∃ settled, m.settled? = some settled ∧
      settled.statementCommand? = some (command, operands) ∧
      step m = located runStatement settled := by
  obtain ⟨settled, hsettled, hended, htext, hcommand⟩ := settled_of_upcoming? h
  refine ⟨settled, hsettled, hcommand, ?_⟩
  rw [step_of_settled? hsettled, stepSettled_of_statement hended htext]

/-- A step to a built-in command executes it, with its operands next. -/
theorem step_executes (h : m.upcoming? = some (command, operands)) :
    ∃ settled word, m.settled? = some settled ∧ settled.ended = false ∧
      (settled.atCommand word).pc = operands ∧ operands ≤ settled.script.size ∧
      step m = located (execute command >>= complete) (settled.atCommand word) := by
  obtain ⟨settled, hsettled, hended, htext, hcommand⟩ := settled_of_upcoming? h
  have hinside := operands_le_size hcommand
  obtain ⟨word, hkind, hresolve, hoperands⟩ := word_of_statementCommand? hcommand
  refine ⟨settled, word, hsettled, hended, hoperands, hinside, ?_⟩
  rw [step_of_settled? hsettled, stepSettled_of_statement hended htext, located,
    runStatement_of_builtin hkind hresolve]
  rfl

/-- The step executes the command that comes next, once the pending one is finished. -/
theorem after_step_of_upcoming? (h : m.upcoming? = some (command, operands)) :
    ∃ settled, m.settled? = some settled ∧
      settled.statementCommand? = some (command, operands) ∧
      Action.after step m = Action.after runStatement settled := by
  obtain ⟨settled, hsettled, hcommand, hstep⟩ := step_of_upcoming? h
  refine ⟨settled, hsettled, hcommand, ?_⟩
  rw [Action.after, hstep, ← after_located, Action.after]

/-- A statement that loads no game puts no other frames in place of those that are open. -/
theorem statementDirection_ne_anew
    (h : ∀ command operands, m.statementCommand? = some (command, operands) → command ≠ .loadgame) :
    m.statementDirection ≠ .anew := by
  unfold statementCommand? at h
  unfold statementDirection
  cases hkind : (m.script.statementAt m.pc m.pretextHook.isSome).kind with
  | command word =>
    dsimp only
    unfold CommandTable.directionOf
    simp only [hkind] at h
    cases hresolve : m.commands.resolve word with
    | builtin command =>
      simp only [hresolve] at h
      have hcommand := h command _ rfl
      cases command with
      | loadgame => exact absurd rfl hcommand
      | _ => nofun
    | subroutine label | host name | unknown => simp
  | comment | label | pretextTag | text | endOfLine | sectionMarker | endOfScript => simp

/-- Nor does any other call of the host that loads no game. -/
theorem direction_ne_anew {call : HostCall} (h : call.loads m = false) :
    call.direction m ≠ .anew := by
  cases call with
  | step =>
    simp only [HostCall.loads, upcoming?] at h
    simp only [HostCall.direction, stepDirection]
    cases hsettled : m.settled? with
    | none => simp
    | some settled =>
      simp only [hsettled] at h
      dsimp only
      by_cases hended : settled.ended
      · simp [hended]
      · by_cases htext : settled.inText
        · simp [hended, htext]
        · simp only [hended, htext, Bool.or_self, Bool.false_eq_true, if_false] at h ⊢
          refine statementDirection_ne_anew fun command operands hcommand => ?_
          simpa [hcommand] using h
  | loadSlot | restore => cases h
  | _ => nofun

/-- Nor does the host edit the variables by a step. -/
theorem stepDirection_ne_edited : m.stepDirection ≠ .edited := by
  unfold stepDirection
  split
  · nofun
  · next settled _ =>
    split_ifs
    · nofun
    · nofun
    · unfold statementDirection
      split
      · unfold CommandTable.directionOf
        split
        · next command _ => cases command <;> nofun
        all_goals nofun
      all_goals nofun

/-- Any other call than an edit goes along with edits that fit, if it loads no game. -/
theorem fitting_direction {call : HostCall} (hplain : call.loads m = false)
    (hedit : ∀ change, call ≠ .edit change) : (call.direction m).fitting = true := by
  have hanew : call.direction m ≠ .anew := direction_ne_anew hplain
  have hedited : call.direction m ≠ .edited := by
    cases call with
    | step => exact stepDirection_ne_edited
    | edit change => exact absurd rfl (hedit change)
    | _ => nofun
  cases hway : call.direction m with
  | anew => exact absurd hway hanew
  | edited => exact absurd hway hedited
  | still | inward | handling | outward => rfl

end NovelScript.Machine
