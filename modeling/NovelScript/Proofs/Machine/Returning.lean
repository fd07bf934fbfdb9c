import NovelScript.Proofs.Machine.Upcoming
import NovelScript.Proofs.Nesting

/-!
# Calls restore what they interrupted

A step opens a call, and the host goes on in any way that loads no game. When a return without a
label comes back to the depth before the call, the frames beneath are those of the call, except that
commands of the script may have read on in their operands. Execution goes on where the call recorded
it: after the statement, or in the text that the call interrupted.
-/

namespace NovelScript.Machine

open NovelScript.Action (Keeps Leads)

variable {script : Script} {m : Machine}

/-! ## What the host does next -/

/-- Whether the next step returns from a call without naming a label. -/
def returnsNext (m : Machine) : Bool :=
  m.upcoming?.any fun upcoming =>
    upcoming.1 == .returnCall && m.script.atStatementEnd (m.script.skipBlanks upcoming.2)

/-- The machine after one more step. -/
def stepped (m : Machine) : Machine :=
  (m.serve .step).2

/-- The next step opens a call on top of everything that is open. -/
structure OpensCall (m : Machine) (call : CallFrame) : Prop where
  /-- It loads no game. -/
  plain : HostCall.step.loads m = false
  /-- The call is on top of all that was open. -/
  frames : m.stepped.nesting.frames = .call call :: m.nesting.frames

/-- Along the calls of the host no game is loaded, and there are always more than `depth` open calls
and loops. As a reset closes everything, this also means that there is none. -/
def StaysAbove (depth : Nat) : List HostCall → Machine → Prop
  | [], m => depth < m.nesting.depth
  | call :: calls, m =>
    depth < m.nesting.depth ∧ call.loads m = false ∧ StaysAbove depth calls (m.serve call).2

instance StaysAbove.decidable (depth : Nat) (calls : List HostCall) (m : Machine) :
    Decidable (StaysAbove depth calls m) :=
  match calls with
  | [] => inferInstanceAs (Decidable (depth < m.nesting.depth))
  | call :: calls =>
    have := StaysAbove.decidable depth calls (m.serve call).2
    inferInstanceAs (Decidable (_ ∧ _ ∧ _))

private theorem stepped_eq (m : Machine) : m.stepped = Action.after step m :=
  serve_step_snd m

/-! ## As long as the call is open -/

/-- A call of the host keeps what is beneath an open call. -/
theorem beneath_serve {base : List Frame} {frame : CallFrame} {rest : List Frame}
    (hbase : base = .call frame :: rest) (hm : Reachable m) {call : HostCall}
    (hplain : call.loads m = false) (hbeneath : Nesting.Beneath base m.nesting)
    (hdepth : base.length ≤ (m.serve call).2.nesting.depth) :
    Nesting.Beneath base (m.serve call).2.nesting := by
  have hsteps := (evolves_serve hm.inside call).steps
  exact Core.beneath_of_steps hbase hsteps (direction_ne_anew hplain) hbeneath fun _ => hdepth

private theorem StaysAbove.lt_depth {depth : Nat} {calls : List HostCall}
    (h : StaysAbove depth calls m) : depth < m.nesting.depth := by
  cases calls with
  | nil => exact h
  | cons call calls => exact h.1

/-- So do all calls of the host that leave it open. -/
theorem beneath_serveAll {base : List Frame} {frame : CallFrame} {rest : List Frame}
    (hbase : base = .call frame :: rest) (hm : Reachable m) {calls : List HostCall}
    (hcalls : StaysAbove rest.length calls m) (hbeneath : Nesting.Beneath base m.nesting) :
    Nesting.Beneath base (m.serveAll calls).2.nesting := by
  induction calls generalizing m with
  | nil => exact hbeneath
  | cons call calls ih =>
    obtain ⟨_, hplain, hcalls⟩ := hcalls
    have hdepth : base.length ≤ (m.serve call).2.nesting.depth := by
      rw [hbase, List.length_cons]
      exact hcalls.lt_depth
    exact ih (hm.serve call) hcalls (beneath_serve hbase hm hplain hbeneath hdepth)

/-! ## Opening -/

/-- If a call of a handler was opened on top of the given frames, it has a bookmark, with the narrow
mode of the machine. -/
def Interrupts (frames : List Frame) (m : Machine) : Prop :=
  ∀ call, m.nesting.frames = .call call :: frames → call.kind = .textGosub ∨ call.kind = .pretext →
    ∃ bookmark, call.bookmark = some bookmark ∧ m.narrow = bookmark.narrow

section Interrupts

variable {frames : List Frame}

private theorem interrupts_of_depth_le (h : m.nesting.depth ≤ frames.length) :
    Interrupts frames m := by
  intro call hcall
  rw [Nesting.depth, hcall, List.length_cons] at h
  omega

private theorem interrupts_of_frames_eq (h : m.nesting.frames = frames) : Interrupts frames m := by
  subst h
  exact interrupts_of_depth_le (Nat.le_refl _)

/-- A handler is opened and goes on at its label. -/
theorem interrupts_handler {kind : CallKind} {bookmark : Bookmark}
    (hframes : m.nesting.frames = frames)
    (hnarrow : m.narrow = bookmark.narrow) (label : String) (event : Event) :
    Interrupts frames (Action.after (do
      pushFrame (.call (.ofBookmark kind bookmark))
      jumpTo label
      return event) m) := by
  have hjump : Keeps (Interrupts frames) (jumpTo label) :=
    .get fun _ _ => .ofExcept_bind fun _ _ => .modify fun _ hm => hm
  refine Keeps.andThen ?_ fun _ => .bind hjump fun _ => .pure _
  refine Keeps.ofExcept_andThen (interrupts_of_frames_eq hframes) fun nesting hpush => ?_
  obtain rfl := push_eq_ok hpush
  intro call hcall _
  cases (List.cons.inj hcall).1
  exact ⟨bookmark, rfl, hnarrow⟩

private theorem interrupts_readText :
    Leads (·.nesting.frames = frames) (Interrupts frames) readText := by
  have hIJ : ∀ m : Machine, m.nesting.frames = frames → Interrupts frames m :=
    fun _ => interrupts_of_frames_eq
  refine .get fun _ _ => .keep hIJ (keeps_markRead_of (fun _ _ hm => hm) _) fun seen => ?_
  refine .get fun m hm => ?_
  refine .keep hIJ (.set hm) fun _ => .keep hIJ .ofExcept fun delivery => ?_
  refine .keep hIJ (keeps_warnAll_of (fun _ _ _ hm => hm) _) fun _ => ?_
  -- From here on narrow mode is that of the text after the pause.
  let Paused (m : Machine) : Prop := m.nesting.frames = frames ∧ m.narrow = delivery.narrow
  have hpaused : ∀ m, Paused m → Interrupts frames m := fun _ hm => hIJ _ hm.1
  refine .bind hpaused (.modify fun _ hm => ⟨hm, rfl⟩) fun _ => .ite (fun _ => ?_) fun _ => ?_
  · refine .ofKeeps hpaused (.bind (.modify fun _ hm => hm) fun _ => ?_)
    exact .ite (fun _ => .pure _) fun _ => .pure _
  · refine .get fun m _ => ?_
    cases m.textHook with
    | none => exact .ofKeeps hpaused (.pure _)
    | some label => exact fun m hm => interrupts_handler hm.1 hm.2 label _

private theorem interrupts_runTag (start next : Nat) (tag : Bytes) :
    Leads (·.nesting.frames = frames) (Interrupts frames) (runTag start next tag) := by
  have hIJ : ∀ m : Machine, m.nesting.frames = frames → Interrupts frames m :=
    fun _ => interrupts_of_frames_eq
  refine .keep hIJ (keeps_markRead_of (fun _ _ hm => hm) _).discard fun _ => ?_
  refine .keep hIJ (.modify fun _ hm => hm) fun _ => .look fun m hm => ?_
  cases m.pretextHook with
  | none => exact interrupts_of_frames_eq hm
  | some label => exact interrupts_handler hm rfl label _

/-- A built-in command opens no handler. -/
theorem resolve_eq_unknown {table : CommandTable} {word : CommandWord}
    (h : table.directionOf word = .handling) : table.resolve word = .unknown := by
  unfold CommandTable.directionOf at h
  cases hresolve : table.resolve word with
  | unknown => rfl
  | builtin command =>
    rw [hresolve] at h
    cases command <;> cases h
  | subroutine label | host name =>
    rw [hresolve] at h
    cases h

private theorem interrupts_runStatement (hway : m.statementDirection = .handling) :
    Interrupts m.nesting.frames (Action.after runStatement m) := by
  let Begun (m' : Machine) : Prop :=
    m'.nesting.frames = m.nesting.frames ∧ m'.commands = m.commands
  have hbegun : ∀ m', Begun m' → Interrupts m.nesting.frames m' :=
    fun _ hm => interrupts_of_frames_eq hm.1
  refine Leads.keep hbegun (keeps_warnAll_of (fun _ _ _ hm => hm) _) (fun _ => ?_) ⟨rfl, rfl⟩
  rw [statementDirection] at hway
  cases hkind : (m.script.statementAt m.pc m.pretextHook.isSome).kind with
  | text =>
    refine .bind hbegun (.modify fun _ hm => hm) fun _ m' hm => ?_
    exact interrupts_readText hm.1
  | pretextTag tag => exact fun m' hm => interrupts_runTag _ _ tag hm.1
  | command word =>
    rw [hkind] at hway
    refine .keep hbegun (.modify fun _ hm => hm) fun _ => .get fun m' hm => ?_
    rw [hm.2, resolve_eq_unknown hway]
    refine .ite (fun _ => .ofKeeps hbegun (.throw _)) fun _ => ?_
    refine .keep hbegun (.modify fun _ hm => hm) fun _ m' hm => ?_
    exact interrupts_readText hm.1
  | comment | endOfLine | sectionMarker | label | endOfScript =>
    rw [hkind] at hway
    cases hway

end Interrupts

/-- Outward nothing is opened. -/
theorem depth_le_of_steps {core last : Core}
    (h : Relation.ReflTransGen (Core.Step .outward) core last) :
    last.nesting.depth ≤ core.nesting.depth := by
  induction h with
  | refl => exact Nat.le_refl _
  | tail _ hstep ih =>
    cases hstep with
    | nest hchange => exact (hchange.depth_le rfl).trans ih
    | move | begin | pass | edit | count => exact ih

/-- Inward no handler is opened. -/
theorem opened_of_steps {core last : Core}
    (h : Relation.ReflTransGen (Core.Step .inward) core last) :
    ∃ opened, last.nesting.frames = opened ++ core.nesting.frames ∧
      ∀ call, .call call ∈ opened → call.kind ≠ .textGosub ∧ call.kind ≠ .pretext := by
  induction h with
  | refl => exact ⟨[], rfl, by simp⟩
  | tail _ hstep ih =>
    cases hstep with
    | nest hchange =>
      obtain ⟨opened, hframes, hkinds⟩ := ih
      cases hchange with
      | call | command | handlerCall | loop =>
        refine ⟨_ :: opened, congrArg _ hframes, ?_⟩
        simpa [CallFrame.ofBookmark] using hkinds
    | move | begin | pass | edit | count => exact ih

/-- If a step opens a call of a handler, that has a bookmark, with the narrow mode of the
machine. -/
theorem interrupts_step (hm : Reachable m) (hplain : HostCall.step.loads m = false) :
    Interrupts m.nesting.frames m.stepped := by
  have hevolves := evolves_serve hm.inside .step
  cases hway : HostCall.step.direction m with
  | anew => exact absurd hway (direction_ne_anew hplain)
  | still | edited =>
    have hsame := hevolves.nesting_eq (by simp [hway])
    exact interrupts_of_frames_eq (congrArg Nesting.frames hsame)
  | outward =>
    rw [hway] at hevolves
    exact interrupts_of_depth_le (depth_le_of_steps hevolves.steps)
  | inward =>
    rw [hway] at hevolves
    obtain ⟨opened, hframes, hkinds⟩ := opened_of_steps hevolves.steps
    intro call hcall hkind
    have hopened : opened = [.call call] := List.append_cancel_right (hframes.symm.trans hcall)
    obtain ⟨htext, htag⟩ := hkinds call (by rw [hopened]; exact List.mem_singleton_self _)
    rcases hkind with h | h
    · exact absurd h htext
    · exact absurd h htag
  | handling =>
    rw [stepped_eq]
    simp only [HostCall.direction, stepDirection] at hway
    cases hsettled : m.settled? with
    | none =>
      rw [hsettled] at hway
      cases hway
    | some settled =>
      rw [hsettled] at hway
      dsimp only at hway
      have hframes : settled.nesting.frames = m.nesting.frames :=
        congrArg Nesting.frames (((Evolves.refl hm.inside).settled hsettled).nesting_eq (.inl rfl))
      rw [after_step_of_settled? hsettled]
      refine Keeps.choose (fun _ => interrupts_of_frames_eq hframes) fun hended => ?_
      rw [if_neg hended] at hway
      refine Keeps.choose (fun htext => ?_) fun htext => ?_
      · rw [after_located]
        exact interrupts_readText hframes
      · rw [if_neg htext] at hway
        rw [after_located, ← hframes]
        exact interrupts_runStatement hway

/-! ## Returning -/

/-- The machine has left the innermost call, or nothing that is open has changed. -/
def LeavesCall (nesting : Nesting) (m : Machine) : Prop :=
  m.nesting = nesting ∨ ∃ frame rest before, nesting.popCall = .ok (frame, rest) ∧
    before.nesting = rest ∧ m = Action.after (leaveCall frame) before

private theorem leavesCall_returnFromCall (h : m.hasMore = false) :
    LeavesCall m.nesting (Action.after returnFromCall m) := by
  refine Keeps.choose (fun hmore => ?_) fun _ => ?_
  · rw [h] at hmore
    cases hmore
  · refine Keeps.ofExcept_andThen (.inl rfl) fun popped hpop => ?_
    obtain ⟨frame, rest⟩ := popped
    refine .inr ⟨frame, rest, { m with nesting := rest }, hpop, rfl, ?_⟩
    exact Action.after_bind_pure (leaveCall frame) (fun _ => Outcome.stay) _

private theorem returns_returnFromCall : Action.Returns returnFromCall (· = .stay) := by
  refine .bind fun m => .join fun target => .bind fun m => .bind fun popped => .bind fun _ => ?_
  cases target with
  | some label => exact .bind fun _ => .pure rfl
  | none => exact .bind fun _ => .pure rfl

/-- The statement at the current address returns from a call without naming a label. -/
theorem leavesCall_runStatement {operands : Nat}
    (hcommand : m.statementCommand? = some (.returnCall, operands))
    (hend : m.script.atStatementEnd (m.script.skipBlanks operands) = true) :
    LeavesCall m.nesting (Action.after runStatement m) := by
  have hle := operands_le_size hcommand
  refine runStatement_executes (I := fun m' => m'.nesting = m.nesting ∧ m'.script = m.script)
    hcommand ⟨rfl, rfl⟩ (fun _ _ hm => hm) (fun _ _ hm => hm) (fun _ hm => .inl hm.1) ?_
  let Reading (m' : Machine) : Prop := m'.nesting = m.nesting ∧ m'.hasMore = false
  have hreading : Leads (fun m' => m'.nesting = m.nesting ∧ m'.script = m.script) Reading
      (moveTo operands) := by
    refine .modify fun m' hm => ⟨hm.1, ?_⟩
    simp only [hasMore, cursor, hm.2, Nat.min_eq_left hle, hend, Bool.not_true]
  refine .bind (fun _ hm => .inl hm.1) hreading fun _ => ?_
  refine .seq (fun _ h => h) (fun m' hm => hm.1 ▸ leavesCall_returnFromCall hm.2) ?_
  intro m' outcome m'' hm hrun
  rw [returns_returnFromCall m' outcome m'' hrun]
  exact Keeps.pure _

/-- A step that returns from a call without naming a label. -/
theorem leavesCall_step (hm : Reachable m) (h : m.returnsNext = true) :
    LeavesCall m.nesting m.stepped := by
  obtain ⟨⟨command, operands⟩, hupcoming, hreturn⟩ := (Option.any_eq_true _ _).mp h
  simp only [Bool.and_eq_true, beq_iff_eq] at hreturn
  obtain ⟨rfl, hend⟩ := hreturn
  obtain ⟨settled, hsettled, hcommand, hafter⟩ := after_step_of_upcoming? hupcoming
  have hevolves : Evolves .still m.script m settled := (Evolves.refl hm.inside).settled hsettled
  rw [stepped_eq, hafter, ← hevolves.nesting_eq (.inl rfl)]
  rw [← hevolves.script_eq] at hend
  exact leavesCall_runStatement hcommand hend

/-- Where execution goes on after a call that was left. -/
structure GoesOnAfter (call : CallFrame) (narrow : Bool) (m : Machine) : Prop where
  /-- After a call or a command of the script, at the recorded address. -/
  plain : call.kind = .gosub ∨ call.kind = .subroutine → m.pc = call.returnTo ∧ m.inText = false
  /-- After a handler, at the bookmarked byte of the text. -/
  text : call.kind = .textGosub ∨ call.kind = .pretext → ∃ bookmark,
    call.bookmark = some bookmark ∧ m.pc = bookmark.addr ∧ m.inText = true ∧ m.narrow = narrow

section Leaving

variable {call frame : CallFrame} {frames : List Frame} {narrow : Bool} {nesting : Nesting}

private theorem nesting_leaveCall (hkind : frame.kind ≠ .rgosub) (before : Machine) :
    (Action.after (leaveCall frame) before).nesting = before.nesting := by
  obtain ⟨kind, returnTo, params, bookmark⟩ := frame
  cases bookmark <;> cases kind <;> first | rfl | exact absurd rfl hkind

private theorem after_leaveCall_rgosub {bookmark : Bookmark} (hkind : frame.kind = .rgosub)
    (hbookmark : frame.bookmark = some bookmark) (before : Machine) :
    Action.after (leaveCall frame) before = { before with
      nesting := before.nesting.unwindHandler
      pc := bookmark.addr
      narrow := bookmark.narrow
      inText := true } := by
  obtain ⟨kind, returnTo, params, mark⟩ := frame
  cases hkind
  cases hbookmark
  rfl

/-- Leaving the call itself. -/
theorem goesOnAfter_leaveCall (hkind : call.kind ≠ .rgosub) (hframe : frame.kind = call.kind)
    (hreturn : frame.returnTo = call.returnTo) (hmark : frame.bookmark = call.bookmark)
    (hbookmark : call.kind = .textGosub ∨ call.kind = .pretext →
      ∃ bookmark, call.bookmark = some bookmark ∧ narrow = bookmark.narrow) (before : Machine) :
    GoesOnAfter call narrow (Action.after (leaveCall frame) before) := by
  obtain ⟨kind, returnTo, params, mark⟩ := call
  obtain ⟨kind', returnTo', params', mark'⟩ := frame
  cases hframe
  cases hreturn
  cases hmark
  cases kind with
  | gosub | subroutine => exact ⟨fun _ => ⟨rfl, rfl⟩, by simp⟩
  | rgosub => exact absurd rfl hkind
  | textGosub | pretext =>
    obtain ⟨bookmark, rfl, rfl⟩ := hbookmark (by simp)
    exact ⟨by simp, fun _ => ⟨bookmark, rfl, rfl, rfl, rfl⟩⟩

/-- A call that is left for good, with everything above it, leaves what is beneath it. -/
theorem returned_of_leavesCall (hkind : call.kind ≠ .rgosub)
    (hbookmark : call.kind = .textGosub ∨ call.kind = .pretext →
      ∃ bookmark, call.bookmark = some bookmark ∧ narrow = bookmark.narrow)
    (hbeneath : Nesting.Beneath (.call call :: frames) nesting) (hleaves : LeavesCall nesting m)
    (hdepth : m.nesting.depth = frames.length) :
    List.Forall₂ Frame.ReadOn frames m.nesting.frames ∧ GoesOnAfter call narrow m := by
  obtain ⟨lower, hlower, hread⟩ := hbeneath.kept
  have hlength : lower.length = frames.length + 1 := hread.length_eq.symm
  rcases hleaves with hsame | ⟨frame, rest, before, hpop, hrest, rfl⟩
  · have hle := hlower.length_le
    rw [← hsame] at hle
    unfold Nesting.depth at hdepth
    omega
  · obtain ⟨hframes, -⟩ := popCall_eq_ok hpop
    rw [hframes] at hlower
    rcases List.suffix_cons_iff.mp hlower with rfl | hlower
    · -- The innermost call is the one that was opened.
      cases hread with
      | cons hhead htail =>
        obtain ⟨_, ⟨⟩, hkind', hreturn, hmark⟩ := hhead.call
        have hgoes := goesOnAfter_leaveCall hkind hkind' hreturn hmark hbookmark before
        rw [nesting_leaveCall (hkind' ▸ hkind), hrest]
        exact ⟨htail, hgoes⟩
    · -- A call out of the handler goes back over everything above the handler.
      have hle := hlower.length_le
      by_cases hframe : frame.kind = .rgosub
      · have hlength' : (Frame.call call :: frames).length ≤ rest.frames.length := by
          rw [List.length_cons]
          omega
        obtain ⟨bookmark, hmark, hbelow⟩ :=
          hbeneath.anchored frame rest.frames (hframes ▸ List.suffix_rfl) hlength' hframe
        have hbelow : rest.bookmark? = some bookmark := hbelow
        obtain ⟨handler, low, hlow, hhandler, hunwind, hmarks⟩ :=
          Nesting.unwindHandler_of_bookmark? hbelow
        rw [after_leaveCall_rgosub hframe hmark, hrest, hunwind] at hdepth ⊢
        have heq : lower = .call handler :: low := by
          have hlength' : lower.length = (Frame.call handler :: low).length :=
            hlength.trans (congrArg (· + 1) hdepth.symm)
          exact (List.suffix_of_suffix_length_le hlower hlow hlength'.le).eq_of_length hlength'
        subst heq
        cases hread with
        | cons hhead htail =>
          obtain ⟨_, ⟨⟩, hkind', -, hmark'⟩ := hhead.call
          have htext : call.kind = .textGosub := hkind'.symm.trans hhandler
          obtain ⟨mark, hcall, hnarrow⟩ := hbookmark (.inl htext)
          obtain rfl := hmarks mark (hmark'.trans hcall)
          exact ⟨htail, by simp [htext], fun _ => ⟨mark, hcall, rfl, rfl, hnarrow.symm⟩⟩
      · rw [nesting_leaveCall hframe, hrest, Nesting.depth] at hdepth
        omega

end Leaving

/-- **Calls restore what they interrupted.** Take any machine that can be reached and a step that
opens a call, but not out of a handler. Whatever the host does then, without loading a game and
without leaving the call, when a return without a label comes back to the depth before the call, the
frames beneath are those of the call, up to operands that were read, and execution goes on where the
call recorded it. -/
theorem return_restores_call (hm : Reachable m) {call : CallFrame} (hopens : m.OpensCall call)
    (hkind : call.kind ≠ .rgosub) {calls : List HostCall}
    (hcalls : m.stepped.StaysAbove m.nesting.depth calls)
    (hreturn : (m.stepped.serveAll calls).2.returnsNext = true)
    (hdepth : (m.stepped.serveAll calls).2.stepped.nesting.depth = m.nesting.depth) :
    List.Forall₂ Frame.ReadOn m.nesting.frames
        (m.stepped.serveAll calls).2.stepped.nesting.frames ∧
      GoesOnAfter call m.stepped.narrow (m.stepped.serveAll calls).2.stepped := by
  have hopened : Reachable m.stepped := hm.serve .step
  have hbeneath : Nesting.Beneath (.call call :: m.nesting.frames) m.stepped.nesting :=
    hopens.frames ▸ Nesting.Beneath.refl _
  have hstill := beneath_serveAll rfl hopened hcalls hbeneath
  have hleaves := leavesCall_step (hopened.serveAll calls) hreturn
  have hinterrupts := interrupts_step hm hopens.plain call hopens.frames
  exact returned_of_leavesCall hkind hinterrupts hstill hleaves hdepth

/-- A script with a command of its own. Its text is interrupted by a handler, which calls a label
that reads an operand of the command and returns straight to the text. -/
def pausedCommand : Script where
  bytes := (Bytes.ofText
    "textgosub *h\ndefsub a\na 1,2\n*a\n-@-\n*h\nrgosub *g\n*g\ngetparam %0\nreturn\n").toArray
  encoding := .utf8

/-- The script in front of the text, inside its command. -/
def beforePause : Machine :=
  ((fresh pausedCommand { variableSlots := 1, globalBorder := some 1 } .absent).serveAll
    (List.replicate 7 .step)).2

/-- The handler is left by the return of the call that was made out of it. -/
theorem return_restores_pause :
    Reachable beforePause ∧ beforePause.nesting.depth = 1 ∧
      List.Forall₂ Frame.ReadOn beforePause.nesting.frames
        (beforePause.stepped.serveAll (List.replicate 7 .step)).2.stepped.nesting.frames ∧
      GoesOnAfter (.ofBookmark .textGosub { addr := 33, narrow := false, stop := .clickWait })
        beforePause.stepped.narrow
        (beforePause.stepped.serveAll (List.replicate 7 .step)).2.stepped := by
  have hload : load pausedCommand { variableSlots := 1, globalBorder := some 1 } .absent =
      .ok (fresh pausedCommand { variableSlots := 1, globalBorder := some 1 } .absent) := rfl
  have hreachable : Reachable beforePause := (Reachable.load hload).serveAll _
  obtain ⟨hone, hplain, hframes, habove, hreturn, hdepth⟩ :
      beforePause.nesting.depth = 1 ∧ HostCall.step.loads beforePause = false ∧
      beforePause.stepped.nesting.frames =
        .call (.ofBookmark .textGosub { addr := 33, narrow := false, stop := .clickWait }) ::
          beforePause.nesting.frames ∧
      beforePause.stepped.StaysAbove beforePause.nesting.depth (List.replicate 7 .step) ∧
      (beforePause.stepped.serveAll (List.replicate 7 .step)).2.returnsNext = true ∧
      (beforePause.stepped.serveAll (List.replicate 7 .step)).2.stepped.nesting.depth =
        beforePause.nesting.depth := by decide +kernel
  exact ⟨hreachable, hone, return_restores_call hreachable ⟨hplain, hframes⟩ (by decide) habove
    hreturn hdepth⟩

end NovelScript.Machine
