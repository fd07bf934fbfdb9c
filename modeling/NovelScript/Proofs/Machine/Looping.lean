import NovelScript.Proofs.Counter
import NovelScript.Proofs.Machine.Forgetting
import NovelScript.Proofs.Machine.GoingOn
import NovelScript.Proofs.Script.LoopEnd

/-!
# How often a loop runs

A loop is opened by the command at its head, and every pass over its body ends at the command at its
end. The number of passes is decided there alone: as long as the body comes to the end with the
frames that were open and with the counter as it was, the body runs once for each value of the
counter up to the first one beyond the bound.
-/

namespace NovelScript.Machine

open NovelScript.Action (Keeps)

variable {m read : Machine} {head : LoopHead}

/-! ## The head of a loop -/

/-- Reads the head of a loop. -/
def loopHead : Run LoopHead := do
  let counter ← readIntTarget
  expectToken "="
  let start ← readInt
  unless ← eatKeyword "to" do throw .loopBoundExpected
  let bound ← readInt
  let step ← if ← eatKeyword "step" then readInt else pure 1
  if step = 0 then throw .zeroStep
  return { counter, start, bound, step }

/-- Opens a loop whose head was read. -/
def enterLoop (head : LoopHead) : Run Outcome := do
  writeInt head.counter head.start
  let value ← valueOf head.counter
  let m ← get
  let frame := head.frame (m.statementEnd m.pc)
  if frame.isPast value then
    let found ← Action.ofExcept (m.script.loopEnd frame.body)
    pushFrame (.loop { frame with finished := true })
    moveTo found.start
    return .stay
  else
    pushFrame (.loop frame)
    return .advance

/-- A loop is opened once its head is read. -/
theorem openLoop_eq : openLoop = loopHead >>= enterLoop := by
  rw [openLoop, loopHead]
  simp only [bind_assoc]
  refine bind_congr fun counter => bind_congr fun _ => bind_congr fun start =>
    bind_congr fun bounded => ?_
  cases bounded with
  | false => rfl
  | true =>
    simp only [if_true, bind_assoc]
    refine bind_congr fun bound => bind_congr fun step => ?_
    cases step with
    | false => rfl
    | true =>
      simp only [if_true, bind_assoc]
      refine bind_congr fun step => ?_
      split <;> rfl

section MovingOn

variable {I : Machine → Prop} (hmove : ∀ m pc, I m → I { m with pc })
  (hwarn : ∀ m count journal, I m → I { m with warningCount := count, journal })
include hmove hwarn

/-- Reading the head of a loop changes nothing but the address and the warnings. -/
theorem keeps_loopHead_of : Keeps I loopHead := by
  have hint : Keeps I readInt := keeps_operand_of hmove hwarn _
  have htarget : Keeps I readIntTarget :=
    .bind (keeps_operand_of hmove hwarn _) fun _ => .guard fun _ => .pure _
  have hequals : Keeps I (expectToken "=") :=
    .bind (keeps_eatToken_of hmove _) fun _ => .ite (fun _ => .pure _) fun _ => .throw _
  refine .bind htarget fun counter => .bind hequals fun _ => .bind hint fun start => ?_
  refine .bind (keeps_eatKeyword_of hmove _) fun _ => .ite (fun _ => ?_) fun _ => .fail
  refine .bind hint fun bound => .bind (keeps_eatKeyword_of hmove _) fun _ => ?_
  exact .join hint (.pure _) fun step => .ite (fun _ => .fail) fun _ => .pure _

end MovingOn

/-- A head that was read has a step. -/
theorem returns_loopHead : Action.Returns loopHead (·.step ≠ 0) := by
  refine .bind fun counter => .bind fun _ => .bind fun start => .bind fun _ => .ite ?_ .fail
  refine .bind fun bound => .bind fun _ => .join fun step => ?_
  dsimp only
  by_cases hstep : step = 0
  · rw [if_pos hstep]
    exact .fail
  · rw [if_neg hstep]
    exact .pure hstep

/-! ## Commands that are executed -/

/-- One machine executes the next statement of another one. It has only moved on since then. -/
structure Working (m n : Machine) : Prop where
  /-- It is otherwise the same machine. -/
  moved : MovedOn m n
  /-- No command of the host is pending. -/
  pending : n.pendingHost = none
  /-- The script has not ended. -/
  running : n.ended = false
  /-- The address is not in the middle of text. -/
  statement : n.inText = false

namespace Working

variable {n : Machine}

/-- A working machine may go on at another address. -/
theorem move (h : Working m n) (pc : Nat) : Working m { n with pc } :=
  ⟨h.moved.move pc, h.pending, h.running, h.statement⟩

private theorem warn (h : Working m n) (count : Nat) (journal : List Notice) :
    Working m { n with warningCount := count, journal } :=
  ⟨h.moved.warn count journal, h.pending, h.running, h.statement⟩

/-- It has the variables of the machine that it began as. -/
theorem store_eq (h : Working m n) : n.store = m.store :=
  congrArg Play.store h.moved.play

/-- It has the same open calls and loops. -/
theorem nesting_eq (h : Working m n) : n.nesting = m.nesting :=
  congrArg Play.nesting h.moved.play

/-- It has the same script. -/
theorem script_eq (h : Working m n) : n.script = m.script :=
  congrArg Setup.script h.moved.setup

/-- It has the same constants. -/
theorem aliases_eq (h : Working m n) : n.aliases = m.aliases :=
  congrArg Setup.aliases h.moved.setup

private theorem commands_eq (h : Working m n) : n.commands = m.commands :=
  congrArg Setup.commands h.moved.setup

private theorem pretextHook_eq (h : Working m n) : n.pretextHook = m.pretextHook :=
  congrArg Setup.pretextHook h.moved.setup

end Working

/-- The machine as it executes the built-in command of its next step. -/
def executing? (m : Machine) : Option Machine :=
  m.settled?.bind fun settled =>
    match (settled.script.statementAt settled.pc settled.pretextHook.isSome).kind with
    | .command word => some (settled.atCommand word)
    | _ => none

/-- A step to a built-in command executes it, by a machine that has only moved on, with the operands
next. -/
theorem step_of_executing {command : Command} {operands : Nat}
    (h : m.upcoming? = some (command, operands)) :
    ∃ begun, m.executing? = some begun ∧ Working m begun ∧ begun.pc = operands ∧
      step m = located (execute command >>= complete) begun := by
  obtain ⟨settled, hsettled, hended, htext, hcommand⟩ := settled_of_upcoming? h
  obtain ⟨word, hkind, hresolve, hoperands⟩ := word_of_statementCommand? hcommand
  refine ⟨settled.atCommand word, ?_, ?_, hoperands, ?_⟩
  · rw [executing?, hsettled, Option.bind_some, hkind]
  · have hpending : settled.pendingHost = none := pendingHost_of_settled? hsettled
    exact ⟨(movedOn_settled hsettled).atCommand word, hpending, hended, htext⟩
  · rw [step_of_settled? hsettled, stepSettled_of_statement hended htext, located,
      runStatement_of_builtin hkind hresolve]
    rfl

private theorem executing_of_upcoming? {command : Command} {operands : Nat}
    (h : m.upcoming? = some (command, operands)) :
    ∃ begun, m.executing? = some begun ∧ Working m begun ∧
      Action.after step m = Action.after (execute command >>= complete) begun := by
  obtain ⟨begun, hbegun, hworking, -, hstep⟩ := step_of_executing h
  exact ⟨begun, hbegun, hworking, by rw [Action.after, hstep, ← Action.after, after_located]⟩

/-! ## Opening a loop -/

/-- The head of the loop that the next step opens, and the machine that has read it. -/
def loopAhead? (m : Machine) : Option (LoopHead × Machine) :=
  match m.upcoming?, m.executing? with
  | some (.forLoop, _), some begun =>
    match loopHead begun with
    | .ok head read => some (head, read)
    | .error _ _ => none
  | _, _ => none

/-- The step goes on from where the head of the loop was read. -/
theorem step_of_loopAhead? (h : m.loopAhead? = some (head, read)) :
    head.step ≠ 0 ∧ Working m read ∧ step m = located (enterLoop head >>= complete) read := by
  unfold loopAhead? at h
  split at h
  · next operands begun hcommand hbegun =>
    split at h
    · next found after hhead =>
      cases h
      obtain ⟨_, hbegun', hworking, -, hstep⟩ := step_of_executing hcommand
      cases hbegun.symm.trans hbegun'
      have hread : Working m (Action.after loopHead begun) :=
        keeps_loopHead_of (fun _ pc h => h.move pc) (fun _ count journal h => h.warn count journal)
          hworking
      rw [Action.after_of_ok hhead] at hread
      refine ⟨returns_loopHead _ _ _ hhead, hread, ?_⟩
      have hopen : (execute .forLoop >>= complete) begun = (enterLoop head >>= complete) read := by
        rw [execute, openLoop_eq, bind_assoc, Action.bind_of_ok hhead]
      rw [hstep, located, hopen, located]
    · cases h
  · cases h

private theorem opening_of_loopAhead? (h : m.loopAhead? = some (head, read)) :
    head.step ≠ 0 ∧ Working m read ∧
      Action.after step m = Action.after (enterLoop head >>= complete) read := by
  obtain ⟨hhead, hworking, hstep⟩ := step_of_loopAhead? h
  exact ⟨hhead, hworking, by rw [Action.after, hstep, ← Action.after, after_located]⟩

/-- An integer that can be written is written, and nothing else changes. -/
theorem writeInt_of_ok {target : VariableRef} {value : Int32} {store : Store}
    (h : m.store.writeInt value target = .ok store) :
    writeInt target value m = .ok () { m with store } := by
  show (Action.ofExcept (m.store.writeInt value target) >>= _ : Run Unit) m = _
  rw [h]
  rfl

/-- An integer that can be read is read, and nothing changes. -/
theorem valueOf_of_ok {target : VariableRef} {value : Int32}
    (h : m.store.readInt target = .ok value) : valueOf target m = .ok value m := by
  show (Action.ofExcept (m.store.readInt target) : Run Int32) m = _
  rw [h]
  rfl

/-- A frame can be opened as long as the cap is not reached. -/
theorem pushFrame_of_room (hroom : ∀ cap ∈ m.nesting.cap, m.nesting.depth < cap) (frame : Frame) :
    pushFrame frame m =
      .ok () { m with nesting := { m.nesting with frames := frame :: m.nesting.frames } } := by
  have hpush : m.nesting.push frame =
      .ok { m.nesting with frames := frame :: m.nesting.frames } := by
    rw [Nesting.push]
    split
    · rfl
    · next cap hcap => rw [if_neg (Nat.not_le.mpr (hroom cap hcap))]
  show (Action.ofExcept (m.nesting.push frame) >>= _ : Run Unit) m = _
  rw [hpush]
  rfl

/-- The body of a loop begins, with so many passes behind it. -/
structure BodyBegins (head : LoopHead) (body : Nat) (below : List Frame) (passes : Nat)
    (m : Machine) : Prop where
  /-- The loop is open, on top of the frames that were open before it. -/
  frames : m.nesting.frames = .loop (head.frame body) :: below
  /-- The counter has the value of so many passes. -/
  counter : m.store.readInt head.counter = .ok (head.valueAfter passes)
  /-- It keeps what is written to it. -/
  unbounded : m.store.Unbounded head.counter

/-- A loop is over, with so many passes behind it. -/
structure LoopOver (head : LoopHead) (below : List Frame) (passes : Nat) (m : Machine) : Prop where
  /-- The frames that were open before it are open. -/
  frames : m.nesting.frames = below
  /-- The counter has the value of so many passes. -/
  counter : m.store.readInt head.counter = .ok (head.valueAfter passes)

/-- First the counter is written. Whether the body runs depends on its value. -/
theorem enterLoop_written (hfree : read.store.Unbounded head.counter) :
    ∃ store : Store, store.readInt head.counter = .ok (head.valueAfter 0) ∧
      store.Unbounded head.counter ∧
      enterLoop head read =
        (let frame := head.frame (read.statementEnd read.pc)
        if head.pastAfter 0 then do
          let found ← Action.ofExcept (read.script.loopEnd frame.body)
          pushFrame (.loop { frame with finished := true })
          moveTo found.start
          return .stay
        else do
          pushFrame (.loop frame)
          return .advance : Run Outcome) { read with store } := by
  obtain ⟨store, hwrite, hread, hagain⟩ := hfree.write head.start
  rw [← head.valueAfter_zero] at hread
  have hvalue : valueOf head.counter { read with store } =
      .ok (head.valueAfter 0) { read with store } := valueOf_of_ok hread
  refine ⟨store, hread, hagain, ?_⟩
  rw [enterLoop, Action.bind_of_ok (writeInt_of_ok hwrite), Action.bind_of_ok hvalue,
    Action.get_bind]
  dsimp only
  rw [LoopHead.isPast_frame]
  rfl

section Room

variable (hfree : read.store.Unbounded head.counter)
  (hroom : ∀ cap ∈ read.nesting.cap, read.nesting.depth < cap)
include hfree hroom

/-- A loop whose counter starts within the bound runs its body. -/
theorem enterLoop_of_pastAfter_eq_false (hpast : head.pastAfter 0 = false) :
    ∃ opened, enterLoop head read = .ok .advance opened ∧
      BodyBegins head (read.statementEnd read.pc) read.nesting.frames 0 opened ∧
      opened.script = read.script ∧ opened.pc = read.pc := by
  obtain ⟨store, hcounter, hagain, henter⟩ := enterLoop_written hfree
  rw [hpast] at henter
  let written : Machine := { read with store }
  have hpush := pushFrame_of_room (m := written) hroom
    (.loop (head.frame (read.statementEnd read.pc)))
  refine ⟨_, henter.trans (Action.bind_of_ok hpush _), ⟨rfl, hcounter, hagain⟩, rfl, rfl⟩

/-- A loop whose counter starts beyond the bound goes on at its end, as a loop that is finished. -/
theorem enterLoop_of_pastAfter_eq_true (hpast : head.pastAfter 0 = true) {found : LoopEnd}
    (hfound : read.script.loopEnd (read.statementEnd read.pc) = .ok found) :
    ∃ store : Store, store.readInt head.counter = .ok (head.valueAfter 0) ∧
      enterLoop head read = .ok .stay { read with
        store
        nesting := { read.nesting with
          frames := .loop { head.frame (read.statementEnd read.pc) with finished := true } ::
            read.nesting.frames }
        pc := found.start } := by
  obtain ⟨store, hcounter, -, henter⟩ := enterLoop_written hfree
  let finished : LoopFrame := { head.frame (read.statementEnd read.pc) with finished := true }
  have hpush := pushFrame_of_room (m := { read with store }) hroom (.loop finished)
  refine ⟨store, hcounter, ?_⟩
  rw [henter, hpast, if_pos rfl, LoopHead.frame_body, hfound]
  exact Action.bind_of_ok hpush _

end Room

/-! ## Going on after a command -/

/-- Where execution goes on after a statement, also if operands are left. -/
theorem pc_after_endStatement (m : Machine) :
    (Action.after endStatement m).pc =
      if !m.script.atStatementEnd (m.script.skipBlanks m.cursor) ||
        m.script.isAt (m.script.skipBlanks m.cursor) Byte.colon then
        m.script.skipStatement false (m.script.skipBlanks m.cursor)
      else m.script.skipBlanks m.cursor := by
  have hwarn : ∀ pc leftover, (Action.after (if leftover = true then warn .extraOperands
      else pure () : Run Unit) { m with pc }).pc = pc := fun pc leftover =>
    Keeps.ite (I := (·.pc = pc)) (fun _ => keeps_warn_of (fun _ _ _ h => h) _) (fun _ => .pure _) rfl
  show (Action.after (if _ then _ else _ : Run Unit) m).pc = _
  split
  · exact hwarn _ _
  · exact hwarn _ _

private theorem after_complete_advance (m : Machine) :
    Action.after (complete .advance) m = Action.after endStatement m :=
  Action.after_bind_pure endStatement (fun _ => Event.continued) m

/-- A command that asks to go on after its statement keeps what moving on keeps. -/
theorem BodyBegins.endStatement {body : Nat} {below : List Frame} {passes : Nat}
    (h : BodyBegins head body below passes m) :
    BodyBegins head body below passes (Action.after endStatement m) :=
  keeps_endStatement_of (fun _ _ h => ⟨h.frames, h.counter, h.unbounded⟩)
    (fun _ _ _ h => ⟨h.frames, h.counter, h.unbounded⟩) h

private theorem LoopOver.endStatement {below : List Frame} {passes : Nat}
    (h : LoopOver head below passes m) :
    LoopOver head below passes (Action.after endStatement m) :=
  keeps_endStatement_of (fun _ _ h => ⟨h.frames, h.counter⟩) (fun _ _ _ h => ⟨h.frames, h.counter⟩) h

/-- Where the body of a loop begins: at first after the command that opens it, and later at the
address that it has recorded. -/
def bodyStart (read : Machine) (passes : Nat) : Nat :=
  if passes = 0 then (Action.after endStatement read).pc else read.statementEnd read.pc

/-! ## One pass -/

section OpenLoop

variable {frame : LoopFrame} {below : List Frame} (h : m.nesting.frames = .loop frame :: below)
include h

private theorem ofExcept_topLoop : Action.ofExcept m.nesting.topLoop m = .ok frame m := by
  rw [Nesting.topLoop, h]
  rfl

private theorem closeLoop_of_frames :
    closeLoop m = .ok () { m with nesting := { m.nesting with frames := below } } := by
  have hpop : m.nesting.popLoop = .ok (frame, { m.nesting with frames := below }) := by
    rw [Nesting.popLoop, Nesting.topLoop, h]
    rfl
  show (Action.ofExcept m.nesting.popLoop >>= _ : Run Unit) m = _
  rw [hpop]
  rfl

/-- The end of a loop that is finished closes the loop. -/
theorem loopAgain_of_finished (hfinished : frame.finished = true) :
    loopAgain m = .ok .advance { m with nesting := { m.nesting with frames := below } } := by
  rw [loopAgain, Action.get_bind, Action.bind_of_ok (ofExcept_topLoop h)]
  rw [if_pos hfinished, Action.bind_of_ok (closeLoop_of_frames h)]
  rfl

end OpenLoop

/-- The end of a loop that runs adds the step to the counter. It closes the loop if the counter is
beyond the bound then, and goes back to the body otherwise. -/
theorem loopAgain_of_bodyBegins {body : Nat} {below : List Frame} {passes : Nat}
    (h : BodyBegins head body below passes m) :
    ∃ store : Store, store.readInt head.counter = .ok (head.valueAfter (passes + 1)) ∧
      store.Unbounded head.counter ∧
      loopAgain m = if head.pastAfter (passes + 1) then
        .ok .advance { m with store, nesting := { m.nesting with frames := below } }
      else .ok .stay { m with store, pc := body } := by
  obtain ⟨store, hwrite, hread, hagain⟩ := h.unbounded.write (head.valueAfter passes + head.step)
  rw [← head.valueAfter_succ] at hread hwrite
  let written : Machine := { m with store }
  refine ⟨store, hread, hagain, ?_⟩
  rw [loopAgain, Action.get_bind, Action.bind_of_ok (ofExcept_topLoop h.frames)]
  rw [if_neg (by simp)]
  simp only [LoopHead.frame_counter, LoopHead.frame_step, LoopHead.frame_body]
  rw [Action.bind_of_ok (valueOf_of_ok h.counter), ← head.valueAfter_succ,
    Action.bind_of_ok (writeInt_of_ok hwrite), Action.bind_of_ok (valueOf_of_ok (m := written) hread),
    LoopHead.isPast_frame]
  split
  · rw [Action.bind_of_ok (closeLoop_of_frames (m := written) h.frames)]
    rfl
  · rfl

/-- The call is a step that executes the end of a loop while the given frames are open. -/
def endsPass (frames : List Frame) (m : Machine) : HostCall → Bool
  | .step => m.nesting.frames == frames && m.upcoming?.map Prod.fst == some .next
  | _ => false

/-- How many of the calls do so. -/
def passEnds (frames : List Frame) : List HostCall → Machine → Nat
  | [], _ => 0
  | call :: calls, m =>
    (if m.endsPass frames call then 1 else 0) + passEnds frames calls (m.serve call).2

private theorem passEnds_append (frames : List Frame) (calls further : List HostCall)
    (m : Machine) : passEnds frames (calls ++ further) m =
      passEnds frames calls m + passEnds frames further (m.serveAll calls).2 := by
  induction calls generalizing m with
  | nil => exact (Nat.zero_add _).symm
  | cons call calls ih =>
    show _ + passEnds frames (calls ++ further) (m.serve call).2 = _
    rw [ih, ← Nat.add_assoc]
    rfl

/-- The calls run the body of a loop once: from its beginning until the next step executes the end
of the loop for the first time, with the same frames open and with the same value of the counter. -/
structure RunsBody (head : LoopHead) (m : Machine) (calls : List HostCall) : Prop where
  /-- The end of the loop is not executed on the way. -/
  once : passEnds m.nesting.frames calls m = 0
  /-- The next step executes it, and the same frames are open. -/
  ends : (m.serveAll calls).2.endsPass m.nesting.frames .step = true
  /-- The counter has the same value. -/
  counter : (m.serveAll calls).2.store.readInt head.counter = m.store.readInt head.counter
  /-- It keeps what is written to it. -/
  unbounded : (m.serveAll calls).2.store.Unbounded head.counter

/-- A loop that is finished is over once its end is executed. -/
theorem loopOver_of_finished {frame : LoopFrame} {below : List Frame} {passes operands : Nat}
    (hframes : m.nesting.frames = .loop frame :: below) (hfinished : frame.finished = true)
    (hcounter : m.store.readInt head.counter = .ok (head.valueAfter passes))
    (hnext : m.upcoming? = some (.next, operands)) :
    LoopOver head below passes (m.serve .step).2 := by
  obtain ⟨begun, -, hworking, hstep⟩ := executing_of_upcoming? hnext
  have hclose := loopAgain_of_finished (hworking.nesting_eq ▸ hframes) hfinished
  rw [serve_step_snd, hstep, Action.after, execute, Action.bind_of_ok hclose, ← Action.after,
    after_complete_advance]
  exact LoopOver.endStatement ⟨rfl, hworking.store_eq ▸ hcounter⟩

/-- A pass ends with one step. It either closes the loop or leads to the next pass. -/
theorem BodyBegins.pass {body : Nat} {below : List Frame} {passes : Nat} {calls : List HostCall}
    (h : BodyBegins head body below passes m) (hbody : RunsBody head m calls) :
    passEnds (.loop (head.frame body) :: below) (calls ++ [.step]) m = 1 ∧
      (head.pastAfter (passes + 1) = true →
        LoopOver head below (passes + 1) (m.serveAll (calls ++ [.step])).2) ∧
      (head.pastAfter (passes + 1) = false →
        BodyBegins head body below (passes + 1) (m.serveAll (calls ++ [.step])).2 ∧
          (m.serveAll (calls ++ [.step])).2.pc = body) := by
  let last := (m.serveAll calls).2
  have hends : last.endsPass (.loop (head.frame body) :: below) .step = true :=
    h.frames ▸ hbody.ends
  obtain ⟨hframes, hcommand⟩ : last.nesting.frames = .loop (head.frame body) :: below ∧
      last.upcoming?.map Prod.fst = some .next := by simpa [endsPass] using hends
  obtain ⟨⟨_, operands⟩, hnext, rfl⟩ := Option.map_eq_some_iff.mp hcommand
  obtain ⟨begun, -, hworking, hstep⟩ := executing_of_upcoming? hnext
  have hbegun : BodyBegins head body below passes begun := by
    constructor
    · rw [hworking.nesting_eq, hframes]
    · rw [hworking.store_eq, hbody.counter, h.counter]
    · rw [hworking.store_eq]
      exact hbody.unbounded
  obtain ⟨store, hcounter, hfree, hagain⟩ := loopAgain_of_bodyBegins hbegun
  have hserve : (m.serveAll (calls ++ [.step])).2 =
      Action.after (loopAgain >>= complete) begun := by
    rw [serveAll_append_snd]
    exact (serve_step_snd last).trans hstep
  refine ⟨?_, fun hpast => ?_, fun hwithin => ?_⟩
  · rw [← h.frames, passEnds_append, hbody.once, passEnds, if_pos hbody.ends]
    rfl
  · rw [hpast, if_pos rfl] at hagain
    rw [hserve, Action.after, Action.bind_of_ok hagain, ← Action.after, after_complete_advance]
    exact LoopOver.endStatement ⟨rfl, hcounter⟩
  · rw [hwithin, if_neg Bool.false_ne_true] at hagain
    rw [hserve, Action.after, Action.bind_of_ok hagain, ← Action.after]
    exact ⟨⟨hbegun.frames, hcounter, hfree⟩, rfl⟩

/-! ## All passes -/

/-- The next step opens a loop whose counter has no bounds, and there is room for its frame. -/
structure OpensLoop (m : Machine) (head : LoopHead) (read : Machine) : Prop where
  /-- The step reads this head. -/
  ahead : m.loopAhead? = some (head, read)
  /-- The counter keeps what is written to it. -/
  unbounded : m.store.Unbounded head.counter
  /-- The cap on open calls and loops is not reached. -/
  room : ∀ cap ∈ m.nesting.cap, m.nesting.depth < cap

namespace OpensLoop

variable (h : m.OpensLoop head read)
include h

private theorem working : Working m read :=
  (opening_of_loopAhead? h.ahead).2.1

private theorem unbounded_read : read.store.Unbounded head.counter :=
  h.working.store_eq ▸ h.unbounded

private theorem room_read : ∀ cap ∈ read.nesting.cap, read.nesting.depth < cap :=
  h.working.nesting_eq ▸ h.room

/-- The step goes on from where the head of the loop was read. -/
theorem after_serve : (m.serve .step).2 = Action.after (enterLoop head >>= complete) read :=
  (serve_step_snd m).trans (opening_of_loopAhead? h.ahead).2.2

end OpensLoop

/-- The calls of the first passes: each runs the body by calls of its own, and then a step executes
the end of the loop. -/
def passCalls (bodies : Nat → List HostCall) : Nat → List HostCall
  | 0 => []
  | n + 1 => passCalls bodies n ++ (bodies n ++ [.step])

/-- The calls of a whole loop. The end of a loop that has no passes is executed as well. -/
def loopCalls (bodies : Nat → List HostCall) : Nat → List HostCall
  | 0 => [.step, .step]
  | n + 1 => .step :: passCalls bodies (n + 1)

/-- The machine once a loop was opened and so many passes are over. -/
def afterPasses (m : Machine) (bodies : Nat → List HostCall) (n : Nat) : Machine :=
  (m.serveAll (.step :: passCalls bodies n)).2

/-- The frames that are open while the body of a loop runs. -/
def loopFrames (m : Machine) (head : LoopHead) (read : Machine) : List Frame :=
  .loop (head.frame (read.statementEnd read.pc)) :: m.nesting.frames

/-- The end of the loop whose body is at an address is found in the text, and it is the built-in
command. -/
def FindsEnd (m : Machine) (body : Nat) : Prop :=
  ∃ found, m.script.loopEnd body = .ok found ∧
    ∀ word, (m.script.statementAt found.start m.pretextHook.isSome).kind = .command word →
      m.commands.resolve word = .builtin .next

/-- One more pass begins after `n` passes. -/
structure PassBegins (m : Machine) (head : LoopHead) (read : Machine)
    (bodies : Nat → List HostCall) (n : Nat) : Prop where
  /-- The loop is open, and its counter has come as far as `n` passes take it. -/
  body : BodyBegins head (read.statementEnd read.pc) m.nesting.frames n (m.afterPasses bodies n)
  /-- The first statement of the body is next. -/
  pc : (m.afterPasses bodies n).pc = read.bodyStart n
  /-- The end of the loop was executed `n` times. -/
  ends : passEnds (m.loopFrames head read) (.step :: passCalls bodies n) m = n

/-- The body of a loop runs exactly `count` times. -/
structure RunsTimes (m : Machine) (head : LoopHead) (read : Machine)
    (bodies : Nat → List HostCall) (count : Nat) : Prop where
  /-- So many passes begin. -/
  begins : ∀ n < count, m.PassBegins head read bodies n
  /-- So many passes end. -/
  ends : passEnds (m.loopFrames head read) (loopCalls bodies count) m = count
  /-- After them the loop is over. -/
  after : LoopOver head m.nesting.frames count (m.serveAll (loopCalls bodies count)).2

/-- The step that opens a loop ends no pass of it. -/
theorem endsPass_loopFrames (m : Machine) (head : LoopHead) (read : Machine) :
    m.endsPass (m.loopFrames head read) .step = false := by
  have hne : (m.nesting.frames == m.loopFrames head read) = false :=
    beq_eq_false_iff_ne.mpr (List.cons_ne_self _ _).symm
  rw [endsPass, hne, Bool.false_and]

private theorem afterPasses_succ (m : Machine) (bodies : Nat → List HostCall) (n : Nat) :
    m.afterPasses bodies (n + 1) =
      ((m.afterPasses bodies n).serveAll (bodies n ++ [.step])).2 :=
  serveAll_append_snd (HostCall.step :: passCalls bodies n) (bodies n ++ [HostCall.step]) m

private theorem passEnds_succ (frames : List Frame) (m : Machine) (bodies : Nat → List HostCall)
    (n : Nat) : passEnds frames (.step :: passCalls bodies (n + 1)) m =
      passEnds frames (.step :: passCalls bodies n) m +
        passEnds frames (bodies n ++ [.step]) (m.afterPasses bodies n) :=
  passEnds_append frames (HostCall.step :: passCalls bodies n) (bodies n ++ [HostCall.step]) m

section OpensLoop

variable {bodies : Nat → List HostCall} {n : Nat} (h : m.OpensLoop head read)
include h

/-- The first pass begins after the command that opens the loop. -/
theorem OpensLoop.passBegins_zero (hwithin : head.pastAfter 0 = false) :
    m.PassBegins head read bodies 0 := by
  obtain ⟨opened, henter, hbegins, hscript, hpc⟩ :=
    enterLoop_of_pastAfter_eq_false h.unbounded_read h.room_read hwithin
  have hserve : m.afterPasses bodies 0 = Action.after endStatement opened := by
    show (m.serve .step).2 = _
    rw [h.after_serve, Action.after, Action.bind_of_ok henter, ← Action.after,
      after_complete_advance]
  refine ⟨?_, ?_, ?_⟩
  · rw [hserve, ← h.working.nesting_eq]
    exact hbegins.endStatement
  · rw [hserve, pc_after_endStatement, bodyStart, if_pos rfl, pc_after_endStatement, cursor, cursor,
      hscript, hpc]
  · rw [passCalls, passEnds, endsPass_loopFrames]
    rfl

/-- As long as the counter is not beyond the bound, one more pass begins. -/
theorem OpensLoop.passBegins
    (hbodies : ∀ n, (∀ k ≤ n, head.pastAfter k = false) →
      RunsBody head (m.afterPasses bodies n) (bodies n))
    (hwithin : ∀ k ≤ n, head.pastAfter k = false) : m.PassBegins head read bodies n := by
  induction n with
  | zero => exact h.passBegins_zero (hwithin 0 (Nat.le_refl _))
  | succ n ih =>
    have hbefore : ∀ k ≤ n, head.pastAfter k = false := fun k hk => hwithin k (by omega)
    have hbegins := ih hbefore
    obtain ⟨hend, -, hnext⟩ := hbegins.body.pass (hbodies n hbefore)
    obtain ⟨hbody, hpc⟩ := hnext (hwithin (n + 1) (Nat.le_refl _))
    refine ⟨afterPasses_succ m bodies n ▸ hbody, ?_, ?_⟩
    · rw [afterPasses_succ, hpc, bodyStart, if_neg (Nat.succ_ne_zero n)]
    · rw [passEnds_succ, hbegins.ends]
      exact congrArg (n + ·) hend

/-- A loop whose counter starts beyond the bound comes to its end, as a loop that is finished. -/
theorem OpensLoop.skips (hpast : head.pastAfter 0 = true)
    (hend : m.FindsEnd (read.statementEnd read.pc)) :
    (m.serve .step).2.nesting.frames =
        .loop { head.frame (read.statementEnd read.pc) with finished := true } :: m.nesting.frames ∧
      (m.serve .step).2.store.readInt head.counter = .ok (head.valueAfter 0) ∧
      ∃ operands, (m.serve .step).2.upcoming? = some (.next, operands) := by
  obtain ⟨found, hfound, hbuiltin⟩ := hend
  have hworking := h.working
  rw [← hworking.script_eq] at hfound
  obtain ⟨store, hcounter, henter⟩ :=
    enterLoop_of_pastAfter_eq_true h.unbounded_read h.room_read hpast hfound
  rw [h.after_serve, Action.after, Action.bind_of_ok henter, ← hworking.nesting_eq]
  -- The end that was found is the statement that comes next.
  obtain ⟨word, hkind, -⟩ := read.script.next_of_loopEnd hfound read.pretextHook.isSome
  have hresolve : read.commands.resolve word = .builtin .next := by
    rw [hworking.commands_eq]
    refine hbuiltin word ?_
    rw [← hworking.script_eq, ← hworking.pretextHook_eq, hkind]
  exact ⟨rfl, hcounter, _,
    upcoming?_of_builtin hworking.pending hworking.running hworking.statement hkind hresolve⟩

/-- It is over once its end is executed. -/
theorem OpensLoop.runsTimes_zero (hpast : head.pastAfter 0 = true)
    (hend : m.FindsEnd (read.statementEnd read.pc)) : m.RunsTimes head read bodies 0 := by
  obtain ⟨hframes, hcounter, operands, hnext⟩ := h.skips hpast hend
  have hother : (m.serve .step).2.endsPass (m.loopFrames head read) .step = false := by
    have hne : ¬ (m.serve .step).2.nesting.frames = m.loopFrames head read := fun hsame => by
      have hfinished := (List.cons.inj (hframes.symm.trans hsame)).1
      simpa using congrArg LoopFrame.finished (Frame.loop.inj hfinished)
    rw [endsPass, beq_eq_false_iff_ne.mpr hne, Bool.false_and]
  refine ⟨nofun, ?_, loopOver_of_finished hframes rfl hcounter hnext⟩
  rw [loopCalls, passEnds, endsPass_loopFrames, passEnds, hother]
  rfl

/-- After the passes for which the counter is not beyond the bound the loop is over. -/
theorem OpensLoop.runsTimes {count : Nat}
    (hbodies : ∀ n, (∀ k ≤ n, head.pastAfter k = false) →
      RunsBody head (m.afterPasses bodies n) (bodies n))
    (hend : head.pastAfter 0 = true → m.FindsEnd (read.statementEnd read.pc))
    (hcount : IsLeast {n | head.pastAfter n = true} count) :
    m.RunsTimes head read bodies count := by
  have hwithin : ∀ k < count, head.pastAfter k = false := fun k hk =>
    Bool.eq_false_iff.mpr fun hpast => Nat.not_le.mpr hk (hcount.2 hpast)
  cases count with
  | zero =>
    exact h.runsTimes_zero hcount.1 (hend hcount.1)
  | succ n =>
    have hbegins : ∀ j < n + 1, m.PassBegins head read bodies j := fun j hj =>
      h.passBegins hbodies fun k hk => hwithin k (by omega)
    have hlast := hbegins n n.lt_succ_self
    obtain ⟨hends, hover, -⟩ := hlast.body.pass
      (hbodies n fun k hk => hwithin k (by omega))
    refine ⟨hbegins, ?_, ?_⟩
    · rw [loopCalls, passEnds_succ, hlast.ends]
      exact congrArg (n + ·) hends
    · have hclosed := hover hcount.1
      rwa [← afterPasses_succ] at hclosed

end OpensLoop

/-- **How often a loop runs.** The next step opens a loop, and every time its body runs, it comes to
the end of the loop with the open frames and the counter as they were. Then the body runs for as
many passes as it takes the counter, in 32 bits, to get beyond the bound; after them the loop is
closed, the frames below it are as before, and the counter has that value. If the counter never gets
there, the loop never ends. If the bound and one more step fit in 32 bits, the number of passes is
that of the steps from the start to the bound, rounded down, and one more.

A loop without any pass needs an end that is found in the text, and that is the built-in command. -/
theorem loop_runs_until_past {bodies : Nat → List HostCall} (h : m.OpensLoop head read)
    (hbodies : ∀ n, (∀ k ≤ n, head.pastAfter k = false) →
      RunsBody head (m.afterPasses bodies n) (bodies n))
    (hend : head.pastAfter 0 = true → m.FindsEnd (read.statementEnd read.pc)) :
    (∀ count, IsLeast {n | head.pastAfter n = true} count →
      m.RunsTimes head read bodies count) ∧
    ((∀ n, head.pastAfter n = false) → ∀ n, m.PassBegins head read bodies n) ∧
    (-2 ^ 31 ≤ head.bound.toInt + head.step.toInt → head.bound.toInt + head.step.toInt < 2 ^ 31 →
      m.RunsTimes head read bodies
        (max 0 ((head.bound.toInt - head.start.toInt).fdiv head.step.toInt + 1)).toNat) := by
  refine ⟨fun count hcount => h.runsTimes hbodies hend hcount,
    fun hnever n => h.passBegins hbodies fun k _ => hnever k, fun hlow hhigh => ?_⟩
  have hstep : head.step ≠ 0 := (opening_of_loopAhead? h.ahead).1
  exact h.runsTimes hbodies hend (LoopHead.isLeast_passes hstep hlow hhigh)

/-- A loop up to 6, from 1, by 2. -/
def countingScript : Script where
  bytes := (Bytes.ofText "for %0 = 1 to 6 step 2\ninc %1\nnext\nend\n").toArray
  encoding := .utf8

/-- The machine at the start of this script. -/
def counting : Machine :=
  fresh countingScript { variableSlots := 2 } .absent

/-- Each pass takes three steps to the end of the loop. -/
def countingBody (_ : Nat) : List HostCall :=
  List.replicate 3 .step

/-- The body runs three times, for 1, 3 and 5. -/
theorem loop_runs_until_past_threeTimes :
    Reachable counting ∧ ∃ read, counting.OpensLoop ⟨.int 0, 1, 6, 2⟩ read ∧
      counting.RunsTimes ⟨.int 0, 1, 6, 2⟩ read countingBody 3 := by
  let head : LoopHead := ⟨.int 0, 1, 6, 2⟩
  have hload : load countingScript { variableSlots := 2 } .absent = .ok counting := rfl
  obtain ⟨read, hread⟩ : ∃ read, counting.loopAhead? = some (head, read) := by
    have hhead : counting.loopAhead?.map Prod.fst = some head := by decide +kernel
    obtain ⟨⟨_, read⟩, hahead, rfl⟩ := Option.map_eq_some_iff.mp hhead
    exact ⟨read, hahead⟩
  have hopens : counting.OpensLoop head read := ⟨hread, .slot (by decide), nofun⟩
  let first := counting.afterPasses countingBody
  let last := fun n => ((first n).serveAll (countingBody n)).2
  have honce : ∀ n < 3, passEnds (first n).nesting.frames (countingBody n) (first n) = 0 := by
    decide +kernel
  have hends : ∀ n < 3, (last n).endsPass (first n).nesting.frames .step = true := by
    decide +kernel
  have hcounter : ∀ n < 3, (last n).store.int 0 = (first n).store.int 0 := by decide +kernel
  have hlimit : ∀ n < 3, ((last n).store.slot 0).limit = none := by decide +kernel
  have hthree : head.pastAfter 3 = true := by decide
  have hbodies : ∀ n, (∀ k ≤ n, head.pastAfter k = false) →
      RunsBody head (counting.afterPasses countingBody n) (countingBody n) := by
    intro n hwithin
    have hn : n < 3 := Nat.lt_of_not_le fun hn => by
      rw [hwithin 3 hn] at hthree
      cases hthree
    exact ⟨honce n hn, hends n hn, congrArg Except.ok (hcounter n hn), .slot (hlimit n hn)⟩
  have hcount : (max 0 ((head.bound.toInt - head.start.toInt).fdiv head.step.toInt + 1)).toNat =
      3 := by decide
  have hruns := (loop_runs_until_past hopens hbodies (fun h => absurd h (by decide))).2.2
    (by decide) (by decide)
  rw [hcount] at hruns
  exact ⟨.load hload, read, hopens, hruns⟩

end NovelScript.Machine
