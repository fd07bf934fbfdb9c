import NovelScript.Proofs.Machine.Looping
import NovelScript.Proofs.Script.LoopSearch

/-!
# Leaving a loop without running its body

A loop is left before its bound by the command that breaks it, and not even entered if its counter
starts beyond the bound. Either way the loop is marked as finished, the end of the loop is looked
for in the text, and the next step executes that end, which closes the loop.
-/

namespace NovelScript.Machine

variable {m : Machine} {body : Nat} {found : LoopEnd} {store : Store} {below : List Frame}

/-- The next step leaves a loop without running what is left of its body, which is at an address.
These are the variables and the open frames that it leaves. -/
inductive LeavesLoop (m : Machine) : (body : Nat) → Store → List Frame → Prop where
  /-- The innermost loop is broken, without a label to go on at. -/
  | breaks {operands : Nat} {frame : LoopFrame} {below : List Frame}
      (hcommand : m.upcoming? = some (.breakLoop, operands))
      (hplain : m.script.atStatementEnd (m.script.skipBlanks operands) = true)
      (hframes : m.nesting.frames = .loop frame :: below) :
      LeavesLoop m (m.script.skipStatement false operands) m.store below
  /-- A loop is opened, and its counter is beyond the bound once it is set to its start. -/
  | skips {head : LoopHead} {read : Machine} {store : Store} {value : Int32}
      (hahead : m.loopAhead? = some (head, read))
      (hwrite : m.store.writeInt head.start head.counter = .ok store)
      (hvalue : store.readInt head.counter = .ok value)
      (hpast : if 0 ≤ head.step then head.bound < value else value < head.bound) :
      LeavesLoop m (read.statementEnd read.pc) store m.nesting.frames

/-- The operands of the next command are inside the script. -/
theorem operands_le_of_upcoming? {command : Command} {operands : Nat}
    (h : m.upcoming? = some (command, operands)) : operands ≤ m.script.size := by
  obtain ⟨settled, hsettled, -, -, hcommand⟩ := settled_of_upcoming? h
  have hscript : settled.script = m.script := congrArg Setup.script (movedOn_settled hsettled).setup
  exact hscript ▸ operands_le_size hcommand

/-! ## The step that leaves the loop -/

/-- From the first machine, the second one has come to the end of a loop that is finished. These are
its variables and the frames below the loop, and everything else of its game is as it was. -/
structure AtFinishedLoop (m : Machine) (found : LoopEnd) (store : Store) (below : List Frame)
    (n : Machine) : Prop where
  /-- The end of the loop is next. -/
  arrived : n.ArrivedAt found.start
  /-- The loop is open and finished. -/
  comesTo : ∃ frame : LoopFrame, frame.finished = true ∧ ComesTo m { m.play with
    store
    nesting := { m.nesting with frames := .loop frame :: below }
    pc := found.start
    pendingHost := none } n

private theorem Working.atFinishedLoop {begun : Machine} (h : Working m begun) {frame : LoopFrame}
    (hfinished : frame.finished = true) :
    AtFinishedLoop m found store below { begun with
      store
      nesting := { begun.nesting with frames := .loop frame :: below }
      pc := found.start } := by
  refine ⟨⟨rfl, h.pending, h.running, h.statement⟩, frame, hfinished, h.moved.setup,
    h.moved.labels, h.moved.settings, h.moved.saves, ?_⟩
  have hplay := congrArg (fun play : Play => { play with
    store
    nesting := { play.nesting with frames := .loop frame :: below }
    pc := found.start }) h.moved.play
  rw [h.pending] at hplay
  exact hplay

/-- A plain break in a loop marks the loop as finished and goes on at its end. -/
theorem breakLoop_of_frames {frame : LoopFrame} (hplain : m.hasMore = false)
    (hframes : m.nesting.frames = .loop frame :: below)
    (hfound : m.script.loopEnd (m.statementEnd m.pc) = .ok found) :
    breakLoop m = .ok .stay { m with
      nesting := { m.nesting with frames := .loop { frame with finished := true } :: below }
      pc := found.start } := by
  have htop : m.nesting.topIsLoop = true := by rw [Nesting.topIsLoop, hframes]
  have hfinish : m.nesting.finishLoop = .ok
      { m.nesting with frames := .loop { frame with finished := true } :: below } := by
    rw [Nesting.finishLoop, Nesting.topLoop, hframes]
    rfl
  rw [breakLoop, Action.get_bind, hplain, if_neg Bool.false_ne_true, Action.get_bind]
  rw [hfound]
  show (if m.nesting.topIsLoop = true then _ else _ : Run Outcome) m = _
  rw [htop, if_pos rfl, hfinish]
  rfl

/-- A loop that is opened beyond its bound goes on at its end, as a loop that is finished. -/
theorem enterLoop_eq_ok {read after : Machine} {head : LoopHead} {value : Int32} {outcome : Outcome}
    (hwrite : read.store.writeInt head.start head.counter = .ok store)
    (hvalue : store.readInt head.counter = .ok value)
    (hpast : if 0 ≤ head.step then head.bound < value else value < head.bound)
    (hfound : read.script.loopEnd (read.statementEnd read.pc) = .ok found)
    (h : enterLoop head read = .ok outcome after) :
    outcome = .stay ∧ after = { read with
      store
      nesting := { read.nesting with
        frames := .loop { head.frame (read.statementEnd read.pc) with finished := true } ::
          read.nesting.frames }
      pc := found.start } := by
  let written : Machine := { read with store }
  have hread : valueOf head.counter written = .ok value written := valueOf_of_ok hvalue
  have hisPast : (head.frame (read.statementEnd read.pc)).isPast value = true := by
    show (if 0 ≤ head.step then _ else _ : Bool) = true
    split_ifs at hpast ⊢
    · exact decide_eq_true hpast
    · exact decide_eq_true hpast
  rw [enterLoop, Action.bind_of_ok (writeInt_of_ok hwrite), Action.bind_of_ok hread,
    Action.get_bind] at h
  change (if (head.frame (read.statementEnd read.pc)).isPast value = true then _ else _ :
    Run Outcome) written = _ at h
  rw [if_pos hisPast] at h
  obtain ⟨end', hend, h⟩ := Action.exists_of_ofExcept_eq_ok h
  cases hfound.symm.trans hend
  obtain ⟨_, opened, hpush, h⟩ := Action.exists_of_run_eq_ok h
  cases h
  rw [pushFrame_eq_ok hpush]
  exact ⟨rfl, rfl⟩

/-- The step marks the loop as finished and goes on at its end. -/
theorem LeavesLoop.atFinishedLoop (h : LeavesLoop m body store below)
    (hfound : m.script.loopEnd body = .ok found)
    (hsucceeds : (m.serve .step).1 = .ok (.event .continued)) :
    AtFinishedLoop m found store below (m.serve .step).2 := by
  have hstep := step_of_serve_eq_continued hsucceeds
  cases h with
  | @breaks operands frame _ hcommand hplain hframes =>
    obtain ⟨begun, -, hworking, rfl, hexecutes⟩ := step_of_executing hcommand
    have hinside := operands_le_of_upcoming? hcommand
    rw [← hworking.script_eq] at hfound hplain hinside
    rw [← hworking.nesting_eq] at hframes
    have hcursor : begun.cursor = begun.pc := Nat.min_eq_left hinside
    have hmore : begun.hasMore = false := by rw [hasMore, hcursor, hplain]; rfl
    have hend : begun.script.loopEnd (begun.statementEnd begun.pc) = .ok found := by
      rw [statementEnd, Nat.min_eq_left hinside]
      exact hfound
    have hbreak := breakLoop_of_frames hmore hframes hend
    rw [hexecutes, located, execute, Action.bind_of_ok hbreak] at hstep
    injection hstep with _ hafter
    rw [← hafter, ← hworking.store_eq]
    exact hworking.atFinishedLoop rfl
  | @skips head read _ value hahead hwrite hvalue hpast =>
    obtain ⟨-, hworking, henter⟩ := step_of_loopAhead? hahead
    rw [henter] at hstep
    obtain ⟨outcome, opened, hopened, hrun⟩ := Action.exists_of_run_eq_ok (located_eq_ok hstep)
    rw [← hworking.store_eq] at hwrite
    rw [← hworking.script_eq] at hfound
    obtain ⟨rfl, rfl⟩ := enterLoop_eq_ok hwrite hvalue hpast hfound hopened
    injection hrun with _ hafter
    rw [← hafter, ← hworking.nesting_eq]
    exact hworking.atFinishedLoop rfl

/-! ## The step that closes it -/

/-- From the end of a finished loop, a step closes the loop and goes on after its end. Besides that
it only notes where it was. -/
theorem AtFinishedLoop.serve_eq {n : Machine} {word : CommandWord}
    (h : AtFinishedLoop m found store below n)
    (hkind : (n.script.statementAt n.pc n.pretextHook.isSome).kind = .command word)
    (hresolve : n.commands.resolve word = .builtin .next)
    (hplain : n.script.atStatementEnd
      (n.script.skipBlanks (n.script.statementAt n.pc n.pretextHook.isSome).next) = true) :
    n.serve .step = (.ok (.event .continued), { n.atCommand word with
      nesting := { n.nesting with frames := below }
      pc := n.script.afterStatement (n.script.statementAt n.pc n.pretextHook.isSome).next }) := by
  obtain ⟨frame, hfinished, hcomes⟩ := h.comesTo
  have hframes : (n.atCommand word).nesting.frames = .loop frame :: below :=
    congrArg (fun play : Play => play.nesting.frames) hcomes.play
  let closed : Machine :=
    { n.atCommand word with nesting := { n.nesting with frames := below } }
  have hloop : loopAgain (n.atCommand word) = .ok .advance closed :=
    loopAgain_of_finished hframes hfinished
  have hcursor : closed.cursor = (n.script.statementAt n.pc n.pretextHook.isSome).next :=
    Nat.min_eq_left (n.script.statementAt_le_size n.pc n.pretextHook.isSome).2
  have hmore : closed.hasMore = false := by
    rw [hasMore, hcursor]
    exact congrArg (!·) hplain
  have hadvance : complete .advance closed =
      .ok .continued { closed with pc := n.script.afterStatement closed.cursor } :=
    Action.bind_of_ok (endStatement_of_hasMore_eq_false hmore) _
  rw [serve_step, h.arrived.step_eq, located, runStatement_of_builtin hkind hresolve, execute,
    Action.bind_of_ok hloop, hadvance, hcursor]

/-! ## Both steps -/

/-- Two steps leave a loop at the end that was found. -/
structure LeavesAt (m : Machine) (found : LoopEnd) (store : Store) (below : List Frame) :
    Prop where
  /-- The first step goes to that end, with the loop marked as finished. -/
  marks : AtFinishedLoop m found store below (m.serve .step).2
  /-- The second step closes the loop and goes on after its end. -/
  closes : ∃ word : CommandWord, word.name = "next" ∧
    (m.serve .step).2.serve .step = (.ok (.event .continued),
      { (m.serve .step).2.atCommand word with
        nesting := { m.nesting with frames := below }
        pc := m.script.afterStatement (m.script.statementAt found.start false).next })
  /-- Nothing else of the game has changed. -/
  comesTo : ComesTo m { m.play with
    store
    nesting := { m.nesting with frames := below }
    pc := m.script.afterStatement (m.script.statementAt found.start false).next
    pendingHost := none } (m.serveAll [.step, .step]).2
  /-- The next statement is the one after the end of the loop: only blanks and separators stand
  between them. -/
  next : ∀ tags, (m.script.statementAt (m.serveAll [.step, .step]).2.pc tags).start =
    m.script.skipSeparators (m.script.statementAt found.start false).next

/-- What the search for the end of a loop does: it comes to the end of the script, unless it stops
at the first end of a loop in front of which as many loops have ended as have begun. -/
def SearchesLoopEnd (s : Script) (addr : Nat) : Prop :=
  (∃ n, s.AtScriptEnd (s.searchNext^[n] addr)) ∧
    ∀ found, s.loopEnd addr = .ok found ↔
      ∃ n, IsLeast {n | s.EndsLoop 0 addr n} n ∧ found = s.loopEndAfter addr n

/-- The word that ends loops is the built-in command, unless the script has defined it anew. -/
theorem resolve_next {table : CommandTable} {word : CommandWord} (hname : word.name = "next")
    (h : table.subroutines.lookup "next" = none) : table.resolve word = .builtin .next := by
  have hbuiltin : Command.ofName? "next" = some .next := by decide
  have hlookup : (if word.forced then none else table.subroutines.lookup word.name) = none := by
    rw [hname, h, ite_self]
  rw [CommandTable.resolve, hlookup]
  simp only [hname, hbuiltin]

/-- **A loop is left at its end.** The next step breaks the innermost loop, or opens a loop whose
counter starts beyond its bound, and succeeds; the end that is found for the loop has no operands,
and its word is not defined anew. Then this step and the one after it execute only the command
itself and the end that was found. After them the loop is not open, the frames below it and the
variables are as the command left them, and the statement after that end is next. The end is the
first one in front of which as many loops have ended as have begun. -/
theorem loop_left_at_end (h : LeavesLoop m body store below)
    (hfound : m.script.loopEnd body = .ok found)
    (hsucceeds : (m.serve .step).1 = .ok (.event .continued))
    (hplain : m.script.atStatementEnd
      (m.script.skipBlanks (m.script.statementAt found.start false).next) = true)
    (hword : m.commands.subroutines.lookup "next" = none) :
    LeavesAt m found store below ∧ ∀ (s : Script) (addr : Nat), SearchesLoopEnd s addr := by
  refine ⟨?_, fun s addr => ⟨s.exists_atScriptEnd addr, fun _ => Script.loopEnd_eq_ok_iff⟩⟩
  have hmarks := h.atFinishedLoop hfound hsucceeds
  obtain ⟨frame, -, hcomes⟩ := hmarks.comesTo
  generalize hmiddle : (m.serve .step).2 = middle at hmarks hcomes
  have hscript : middle.script = m.script := congrArg Setup.script hcomes.setup
  have hcommands : middle.commands = m.commands := congrArg Setup.commands hcomes.setup
  have hnesting : middle.nesting = { m.nesting with frames := .loop frame :: below } :=
    congrArg Play.nesting hcomes.play
  -- The end that was found is the statement that comes next, however tags are read.
  obtain ⟨word, hkind, hname⟩ := m.script.next_of_loopEnd hfound false
  have hstatement : middle.script.statementAt middle.pc middle.pretextHook.isSome =
      m.script.statementAt found.start false := by
    rw [hscript, hmarks.arrived.pc]
    exact Script.statementAt_of_command hkind _
  have hserve := hmarks.serve_eq (show _ = StatementKind.command word by rw [hstatement, hkind])
    (resolve_next hname (hcommands ▸ hword)) (by rw [hstatement, hscript, hplain])
  rw [hstatement, hscript, hnesting] at hserve
  have hlast : (m.serveAll [.step, .step]).2 = (middle.serve .step).2 := by
    rw [← hmiddle]
    rfl
  have hlastComes : ComesTo m { m.play with
      store
      nesting := { m.nesting with frames := below }
      pc := m.script.afterStatement (m.script.statementAt found.start false).next
      pendingHost := none } (m.serveAll [.step, .step]).2 := by
    rw [hlast, hserve]
    exact ⟨hcomes.setup, hcomes.labels, hcomes.settings, hcomes.saves,
      congrArg (fun play : Play => { play with
        nesting := { m.nesting with frames := below }
        pc := m.script.afterStatement (m.script.statementAt found.start false).next }) hcomes.play⟩
  refine ⟨hmiddle ▸ hmarks, ⟨word, hname, hmiddle ▸ hserve⟩, hlastComes, fun tags => ?_⟩
  have hpc : (m.serveAll [.step, .step]).2.pc =
      m.script.afterStatement (m.script.statementAt found.start false).next :=
    congrArg Play.pc hlastComes.play
  have hinside := Script.afterStatement_le_size (m.script.statementAt_le_size found.start false).2
  rw [hpc, Script.start_statementAt, Nat.min_eq_left hinside, Script.skipSeparators_afterStatement]

/-- A loop that is not entered, with another loop in its body. -/
def skippedLoops : Script where
  bytes := (Bytes.ofText "for %0=2 to 1:for %1=1 to 3:next:next:end").toArray
  encoding := .utf8

/-- The machine at the start of this script. -/
def skipping : Machine :=
  fresh skippedLoops { variableSlots := 2 } .absent

/-- A loop that is broken in its first pass, in front of another loop. -/
def brokenLoop : Script where
  bytes := (Bytes.ofText "for %0=1 to 9:break:for %1=1 to 2:next:next:end").toArray
  encoding := .utf8

/-- The machine that has opened this loop. -/
def breaking : Machine :=
  ((fresh brokenLoop { variableSlots := 2 } .absent).serve .step).2

/-- Both loops are left at their own ends, behind that of the loop in their body. -/
theorem loop_left_at_end_behindInner :
    (Reachable skipping ∧ ∃ store, LeavesLoop skipping 14 store [] ∧
      LeavesAt skipping ⟨33, 38⟩ store []) ∧
    Reachable breaking ∧ LeavesLoop breaking 20 breaking.store [] ∧
      LeavesAt breaking ⟨39, 44⟩ breaking.store [] := by
  have hskipping : Reachable skipping :=
    .load (show load skippedLoops { variableSlots := 2 } .absent = .ok skipping from rfl)
  have hbreaking : Reachable breaking :=
    .serve (.load (show load brokenLoop { variableSlots := 2 } .absent = .ok _ from rfl)) _
  obtain ⟨store, hskip⟩ : ∃ store, LeavesLoop skipping 14 store [] := by
    obtain ⟨read, hread, hbody⟩ : ∃ read, skipping.loopAhead? = some (⟨.int 0, 2, 1, 1⟩, read) ∧
        read.statementEnd read.pc = 14 := by
      have hhead : skipping.loopAhead?.map (fun ahead =>
          (ahead.1, ahead.2.statementEnd ahead.2.pc)) = some (⟨.int 0, 2, 1, 1⟩, 14) := by
        decide +kernel
      obtain ⟨⟨_, read⟩, hahead, hboth⟩ := Option.map_eq_some_iff.mp hhead
      obtain ⟨rfl, hbody⟩ := Prod.mk.inj hboth
      exact ⟨read, hahead, hbody⟩
    have hvalue : (skipping.store.setInt 0 2).readInt (.int 0) = .ok 2 := by decide +kernel
    exact ⟨skipping.store.setInt 0 2, hbody ▸ .skips hread rfl hvalue (by decide)⟩
  have hbreak : LeavesLoop breaking 20 breaking.store [] := by
    have hbody : breaking.script.skipStatement false 19 = 20 := by decide +kernel
    have hframes : breaking.nesting.frames = [.loop ⟨.int 0, 9, 1, 14, false⟩] := by
      decide +kernel
    rw [← hbody]
    have hcommand : breaking.upcoming? = some (.breakLoop, 19) := by decide +kernel
    exact .breaks hcommand (by decide +kernel) hframes
  have hskipEnd : skipping.script.loopEnd 14 = .ok ⟨33, 38⟩ := by decide +kernel
  have hbreakEnd : breaking.script.loopEnd 20 = .ok ⟨39, 44⟩ := by decide +kernel
  have hskipped := (loop_left_at_end hskip hskipEnd (by decide +kernel) (by decide +kernel) rfl).1
  have hbroken := (loop_left_at_end hbreak hbreakEnd (by decide +kernel) (by decide +kernel)
    (by decide +kernel)).1
  exact ⟨⟨hskipping, store, hskip, hskipped⟩, hbreaking, hbreak, hbroken⟩

end NovelScript.Machine
