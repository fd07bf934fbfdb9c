import NovelScript.Proofs.Machine.FailedSteps
import NovelScript.Proofs.Machine.GoingOn
import NovelScript.Proofs.Operand.Skipping

/-!
# Operands that are passed over

A command of the host or of the script may read its operands, or leave them alone. The host passes
over what it does not read, and a call of the script notes where the statement ends before anything
is read. Both come to where execution goes on behind operands that are read to their end.
-/

namespace NovelScript.Machine

open NovelScript.Action (Keeps Reaches)
open NovelScript.Operand (Scope Reader At)

variable {α : Type} {m n opened : Machine} {script : Script} {start operands : Nat} {event : Event}

/-- The call reads an operand. -/
def HostCall.readsOperand : HostCall → Bool
  | readInt | readStr | readLabel | readVarRef => true
  | _ => false

/-- The machine reads operands that begin at `start`. -/
def Skimming (script : Script) (start : Nat) (m : Machine) : Prop :=
  m.script = script ∧ script.Skims start m.pc

/-- An operand that is read leads on towards the end of the statement, and one that cannot be read
leaves the machine where it is. -/
theorem keeps_operand_of_passable {read : Scope → Reader α}
    (hread : ∀ {scope : Scope} {P : Nat → Prop}, scope.script.Passable scope.narrow P →
      Reaches (At P) (fun _ => At P) (read scope)) :
    Keeps (Skimming script start) (operand read) := by
  have hwarns : ∀ warnings, Keeps (Skimming script start) (warnAll warnings) :=
    keeps_warnAll_of fun _ _ _ h => h
  refine .get fun m hm => ?_
  obtain ⟨rfl, hskims⟩ := hm
  split
  · next value after hrun =>
    have hcursor : m.cursor = m.pc := Nat.min_eq_left hskims.le_size
    have hpassable : m.scope.script.Passable m.scope.narrow (m.script.Skims start) :=
      m.script.passable_skims start
    have hafter : m.script.Skims start after.pos :=
      hread hpassable (show At _ ⟨m.cursor, []⟩ from hcursor ▸ hskims) hrun
    have hbehind : m.script.Skims start (m.script.behindOperand after.pos) :=
      hpassable.behindOperand (fun hat h => h.succ (beq_iff_eq.mp hat) (by decide) (by decide)) hafter
    exact .bind (hwarns _) fun _ => .bind (.modify fun _ hm => ⟨hm.1, hbehind⟩) fun _ => .pure _
  · exact .bind (hwarns _) fun _ => .throw _

/-- So do the calls of the host that read operands. -/
theorem skimming_serve {call : HostCall} (hcall : call.readsOperand = true)
    (h : Skimming script start m) : Skimming script start (m.serve call).2 := by
  have hread : ∀ {β : Type} {read : Scope → Reader β} {f : β → Reply},
      (∀ {scope : Scope} {P : Nat → Prop}, scope.script.Passable scope.narrow P →
        Reaches (At P) (fun _ => At P) (read scope)) →
      Skimming script start
        (Action.after (do return f (← unlocated (operand read)) : Located Reply) m) :=
    fun hreaches =>
      Keeps.bind (keeps_unlocated (keeps_operand_of_passable hreaches)) (fun _ => .pure _) h
  rw [serve_snd]
  cases call with
  | readInt => exact hread fun h => h.reaches_int
  | readStr => exact hread fun h => h.reaches_str
  | readLabel => exact hread fun h => h.reaches_label
  | readVarRef => exact hread fun h => h.reaches_varRef
  | _ => cases hcall

/-- Only the address, the log and the number of warnings depend on what is read. -/
theorem pendingHost_serve {call : HostCall} (hcall : call.readsOperand = true) :
    (m.serve call).2.pendingHost = m.pendingHost := by
  have hread : ∀ {β : Type} (read : Scope → Reader β) (f : β → Reply),
      Keeps (·.pendingHost = m.pendingHost)
        (do return f (← unlocated (operand read)) : Located Reply) :=
    fun read f => .bind (keeps_unlocated (keeps_operand_of (fun _ _ h => h) (fun _ _ _ h => h) read))
      fun _ => .pure _
  rw [serve_snd]
  cases call with
  | readInt | readStr | readLabel | readVarRef => exact hread _ _ rfl
  | _ => cases hcall

private theorem skimming_serveAll {calls : List HostCall}
    (hcalls : ∀ call ∈ calls, call.readsOperand = true)
    (h : Skimming script start m) : Skimming script start (m.serveAll calls).2 := by
  induction calls generalizing m with
  | nil => exact h
  | cons call calls ih =>
    obtain ⟨hcall, hrest⟩ := List.forall_mem_cons.mp hcalls
    exact ih hrest (skimming_serve hcall h)

private theorem pendingHost_serveAll {calls : List HostCall}
    (hcalls : ∀ call ∈ calls, call.readsOperand = true) :
    (m.serveAll calls).2.pendingHost = m.pendingHost := by
  induction calls generalizing m with
  | nil => rfl
  | cons call calls ih =>
    obtain ⟨hcall, hrest⟩ := List.forall_mem_cons.mp hcalls
    exact (ih hrest).trans (pendingHost_serve hcall)

/-- The operands of the current statement were read to its end: to the end of the line, or to a
separator. -/
def AtEnd (m : Machine) : Prop :=
  m.hasMore = false ∧ m.script.isAt (m.script.skipBlanks m.cursor) Byte.semicolon = false

instance (m : Machine) : Decidable m.AtEnd :=
  inferInstanceAs (Decidable (_ ∧ _))

/-- Where the operands were read to the end, execution goes on at the end of the statement that is
computed ahead. -/
theorem endStatement_of_skimming (h : Skimming script start m) (hend : m.AtEnd) :
    endStatement m = .ok () { m with pc := script.skipStatement false start } := by
  obtain ⟨rfl, hskims⟩ := h
  obtain ⟨hmore, hcomment⟩ := hend
  have hcursor : m.cursor = m.pc := Nat.min_eq_left hskims.le_size
  have hstatement : m.script.atStatementEnd (m.script.skipBlanks m.cursor) = true := by
    simpa [hasMore] using hmore
  rw [endStatement_of_hasMore_eq_false hmore,
    ← Script.skipStatement_eq_afterStatement hstatement hcomment, hcursor, hskims.sameEnd]

/-- A command of the script is called with its operands next, and returns to the end of its
statement. -/
theorem frames_of_runCommand {label : String} {word : CommandWord}
    (h : runCommand start operands word m = .ok event opened)
    (hresolve : m.commands.resolve word = .subroutine label) :
    opened.nesting.frames =
      .call ⟨.subroutine, m.statementEnd operands, some operands, none⟩ :: m.nesting.frames := by
  rw [runCommand, Action.modify_bind, Action.get_bind] at h
  simp only [hresolve, Action.bind_of_ok (discard_markRead _ _), Action.get_bind] at h
  obtain ⟨_, pushed, hpush, h⟩ := Action.exists_of_run_eq_ok h
  obtain ⟨_, jumped, hjump, h⟩ := Action.exists_of_run_eq_ok h
  cases h
  have hframes : Keeps (·.nesting.frames = pushed.nesting.frames) (jumpTo label) :=
    .get fun _ _ => .ofExcept_bind fun _ _ => .modify fun _ h => h
  have hsame := hframes rfl
  rw [Action.after_of_ok hjump] at hsame
  rw [hsame, pushFrame_eq_ok hpush]
  rfl

/-- The operands of the command of the script that the next step calls, if it calls one. -/
def calledOperands? (m : Machine) : Option Nat :=
  match m.settled?, m.nextResolution? with
  | some settled, some (.subroutine _) =>
    some (settled.script.statementAt settled.pc settled.pretextHook.isSome).next
  | _, _ => none

private theorem frames_of_calledOperands? (hm : m.core.Inside m.script)
    (h : m.calledOperands? = some operands) (hstep : step m = .ok event opened) :
    opened.nesting.frames = .call
      ⟨.subroutine, m.script.skipStatement false operands, some operands, none⟩ ::
        m.nesting.frames := by
  unfold calledOperands? nextResolution? at h
  cases hsettled : m.settled? with
  | none =>
    rw [hsettled] at h
    cases h
  | some settled =>
    simp only [hsettled] at h
    cases hstop : settled.ended || settled.inText with
    | true => simp [hstop] at h
    | false =>
      obtain ⟨hended, htext⟩ := Bool.or_eq_false_iff.mp hstop
      rw [hstop, if_neg Bool.false_ne_true, resolution?] at h
      cases hkind : (settled.script.statementAt settled.pc settled.pretextHook.isSome).kind with
      | command word =>
        simp only [hkind] at h
        cases hresolve : settled.commands.resolve word with
        | subroutine label =>
          simp only [hresolve, Option.some.injEq] at h
          have hevolves : Evolves .still m.script m settled := (Evolves.refl hm).settled hsettled
          rw [step_of_settled? hsettled, stepSettled_of_statement hended htext] at hstep
          have hrun := located_eq_ok hstep
          rw [runStatement_of_word hkind, h] at hrun
          have hinside : operands ≤ settled.script.size :=
            h ▸ (settled.script.statementAt_le_size settled.pc settled.pretextHook.isSome).2
          rw [frames_of_runCommand hrun hresolve, statementEnd, Nat.min_eq_left hinside,
            hevolves.script_eq, hevolves.nesting_eq (.inl rfl)]
        | _ => simp [hresolve] at h
      | _ => simp [hkind] at h

/-- **Passing over operands comes to where reading them comes to.** The operands at the current
address are read to their end, by whatever calls, and the literals in backquotes among them hold
neither a separator nor a double quote. If they are the operands of a command of the host, the host
may just as well pass over them. If they are those of a command of the script, its call returns to
where execution goes on behind them. -/
theorem skipping_agrees_with_reading (hpc : m.pc ≤ m.script.size) {calls : List HostCall}
    (hcalls : ∀ call ∈ calls, call.readsOperand = true)
    (hplain : m.script.plainOperands m.pc = true) (hend : (m.serveAll calls).2.AtEnd) :
    (m.pendingHost.isSome = true →
      (m.serveAll calls).2.serve (.finish .advance) =
        (.ok (.event .continued), { (m.serveAll calls).2 with
          pc := (m.serve .skipOperands).2.pc
          pendingHost := none })) ∧
    ∀ caller event opened, Reachable caller → caller.script = m.script →
      caller.calledOperands? = some m.pc → step caller = .ok event opened →
      ∃ call, opened.nesting.frames = .call call :: caller.nesting.frames ∧
        complete .advance (m.serveAll calls).2 =
          .ok .continued { (m.serveAll calls).2 with pc := call.returnTo } := by
  have hskimming : Skimming m.script m.pc (m.serveAll calls).2 :=
    skimming_serveAll hcalls ⟨rfl, hpc, hplain, rfl⟩
  have hpending := pendingHost_serveAll (m := m) hcalls
  generalize (m.serveAll calls).2 = read at hskimming hpending hend ⊢
  constructor
  · intro hhost
    have hfinish : endStatement { read with pendingHost := none } = .ok () { read with
        pc := m.script.skipStatement false m.pc
        pendingHost := none } :=
      endStatement_of_skimming hskimming hend
    have hskip : (m.serve .skipOperands).2.pc = m.script.skipStatement false m.pc := by
      show m.statementEnd m.pc = _
      rw [statementEnd, Nat.min_eq_left hpc]
    have hlocated : finishCommand .advance read = .ok .continued { read with
        pc := m.script.skipStatement false m.pc
        pendingHost := none } := by
      show (if read.pendingHost.isSome then _ else _ : Located Event) read = _
      rw [hpending, if_pos hhost]
      show located (complete .advance) { read with pendingHost := none } = _
      rw [located, complete, Action.bind_of_ok hfinish]
      rfl
    rw [hskip, serve, HostCall.perform, Action.bind_of_ok hlocated]
    rfl
  · intro caller event opened hcaller hscript hoperands hstep
    refine ⟨_, frames_of_calledOperands? hcaller.inside hoperands hstep, ?_⟩
    rw [hscript]
    exact Action.bind_of_ok (endStatement_of_skimming hskimming hend) _

/-- A command of the host, with a separator in its literal, another operand and another
statement. -/
def paintingScript : Script where
  bytes := (Bytes.ofText "bg \"a:b\",%0:end").toArray
  encoding := .utf8

/-- The machine that waits for the host to paint. -/
def painting : Machine :=
  ((fresh paintingScript { variableSlots := 2 } .absent).serveAll [.registerHost "bg", .step]).2

/-- A command of the script, with a separator in its literal. -/
def sayingScript : Script where
  bytes := (Bytes.ofText "defsub say:say \"a:b\",`c`:end\n*say\nreturn").toArray
  encoding := .utf8

/-- The machine that calls this command next. -/
def saying : Machine :=
  ((fresh sayingScript { variableSlots := 2 } .absent).serve .step).2

/-- The host comes to the separator behind its operands either way, and the call returns behind its
own operands. -/
theorem skipping_agrees_with_reading_painting :
    (painting.pendingHost = some "bg" ∧
      ((painting.serveAll [.readStr, .readInt]).2.serve (.finish .advance)).2.pc =
        (painting.serve .skipOperands).2.pc) ∧
    ∃ event opened call, step saying = .ok event opened ∧ opened.nesting.frames = [.call call] ∧
      (Action.after (complete .advance)
        (({ saying with pc := 14 } : Machine).serveAll [.readStr, .readStr]).2).pc = call.returnTo := by
  have hpending : painting.pendingHost = some "bg" := by decide +kernel
  have hpainting := (skipping_agrees_with_reading (show painting.pc ≤ _ by decide +kernel)
    (show ∀ call ∈ [HostCall.readStr, .readInt], call.readsOperand = true by decide)
    (by decide +kernel) (by decide +kernel)).1 (by rw [hpending]; rfl)
  have hsaying := (skipping_agrees_with_reading
    (show ({ saying with pc := 14 } : Machine).pc ≤ _ by decide +kernel)
    (show ∀ call ∈ [HostCall.readStr, .readStr], call.readsOperand = true by decide)
    (by decide +kernel) (by decide +kernel)).2
  have hreachable : Reachable saying :=
    .serve (.load (show load sayingScript { variableSlots := 2 } .absent = .ok _ from rfl)) _
  obtain ⟨event, opened, hstep⟩ : ∃ event opened, step saying = .ok event opened := by
    have hgoes : saying.stepFailure? = none := by decide +kernel
    unfold stepFailure? at hgoes
    split at hgoes
    · next event opened hstep => exact ⟨event, opened, hstep⟩
    · cases hgoes
  obtain ⟨call, hframes, hcomplete⟩ :=
    hsaying saying event opened hreachable rfl (by decide +kernel) hstep
  have hnone : saying.nesting.frames = [] := by decide +kernel
  refine ⟨⟨hpending, by rw [hpainting]⟩, event, opened, call, hstep, hnone ▸ hframes, ?_⟩
  rw [Action.after_of_ok hcomplete]

/-- A command of the host with a separator in backquotes. -/
def backquotedScript : Script where
  bytes := (Bytes.ofText "bg `a:b`\nend\n").toArray
  encoding := .utf8

/-- The machine that waits for the host to paint what is in backquotes. -/
def backquoting : Machine :=
  ((fresh backquotedScript { variableSlots := 2 } .absent).serveAll [.registerHost "bg", .step]).2

/-- It is not so for all literals: the one operand is read to the end of its line, without a
warning, but passing over ends in the middle of it. -/
theorem skipping_apart_backquoting :
    Reachable backquoting ∧ backquoting.pendingHost = some "bg" ∧ backquoting.pc = 2 ∧
      (backquoting.serveAll [.readStr]).1 = [.ok (.value (.str [0x61, 0x3a, 0x62]))] ∧
      (backquoting.serveAll [.readStr]).2.warningCount = backquoting.warningCount ∧
      (backquoting.serveAll [.readStr]).2.AtEnd ∧
      ((backquoting.serveAll [.readStr]).2.serve (.finish .advance)).2.pc = 8 ∧
      (backquoting.serve .skipOperands).2.pc = 6 := by
  have hload : load backquotedScript { variableSlots := 2 } .absent =
      .ok (fresh backquotedScript { variableSlots := 2 } .absent) := rfl
  refine ⟨(Reachable.load hload).serveAll _, ?_⟩
  decide +kernel

end NovelScript.Machine
