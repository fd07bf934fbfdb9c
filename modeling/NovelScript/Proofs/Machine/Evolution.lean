import NovelScript.Machine.Step
import NovelScript.Proofs.Label
import NovelScript.Proofs.Script.Bounds
import NovelScript.Proofs.TextRun

/-!
# What a machine can do

Whatever a machine does to its place in the script, to its variables and to its open calls and loops
is made of a few kinds of changes. This file lists them. A property of the machine that each of them
keeps holds as long as the machine runs; the first such property is that all addresses which the
machine holds are addresses of its script.

Changes to the open calls and loops go in different directions, and no command mixes two of them, so
that a command is described by the direction of its changes. The direction also tells which edits of
the variables there can be: only the host and saved games write what a script could not.
-/

namespace NovelScript

/-- All addresses of a frame are at most `size`. -/
def Frame.Within (size : Nat) : Frame → Prop
  | call frame => frame.returnTo ≤ size ∧ (∀ addr ∈ frame.params, addr ≤ size) ∧
      ∀ bookmark ∈ frame.bookmark, bookmark.addr ≤ size
  | loop frame => frame.body ≤ size

/-- The addresses of a frame. -/
def Frame.addresses : Frame → List Nat
  | call frame =>
    frame.returnTo :: (frame.params.toList ++ (frame.bookmark.map Bookmark.addr).toList)
  | loop frame => [frame.body]

/-- A frame is within the script if all its addresses are. -/
theorem Frame.within_iff {size : Nat} {frame : Frame} :
    frame.Within size ↔ ∀ addr ∈ frame.addresses, addr ≤ size := by
  cases frame with
  | call frame => simp [Within, addresses, or_imp, forall_and]
  | loop frame => simp [Within, addresses]

/-- A call of some kind that is found in a frame is that frame. -/
theorem Frame.callOf?_eq_some {kind : CallKind} {frame : Frame} {call : CallFrame}
    (h : frame.callOf? kind = some call) : frame = .call call ∧ call.kind = kind := by
  cases frame with
  | loop frame => cases h
  | call frame =>
    obtain ⟨hkind, heq⟩ := Option.ite_none_right_eq_some.mp h
    cases heq
    exact ⟨rfl, hkind⟩

namespace Nesting

/-- Which way a change to the open calls and loops goes. -/
inductive Direction where
  /-- There is no change. -/
  | still
  /-- A call or a loop is opened. -/
  | inward
  /-- The handler of a pause or of a tag is opened. -/
  | handling
  /-- Nothing is opened: operands are read, a loop is finished, or frames are closed. -/
  | outward
  /-- A saved game takes the place of everything. -/
  | anew
  /-- There is no change, but the host edits the variables. -/
  | edited
  deriving DecidableEq, Repr

/-- Whether only edits of a script go along with changes in a direction. -/
def Direction.fitting : Direction → Bool
  | still | inward | handling | outward => true
  | anew | edited => false

/-- The edits of the variables that go along with changes in a direction. -/
def Direction.Allows (way : Direction) (store : Store) (edit : Store.Edit) : Prop :=
  way.fitting = true → edit.Scripted store

/-- One change to the open calls and loops of a script of a given size, with given variables. -/
inductive Change (size : Nat) (store : Store) (nesting : Nesting) : Direction → Nesting → Prop where
  /-- A call is opened. -/
  | call {returnTo : Nat} (h : returnTo ≤ size) :
    Change size store nesting .inward
      { nesting with frames := .call { kind := .gosub, returnTo } :: nesting.frames }
  /-- A command of the script is opened. -/
  | command {returnTo params : Nat} (h : returnTo ≤ size) (hparams : params ≤ size) :
    Change size store nesting .inward
      { nesting with
        frames := .call { kind := .subroutine, returnTo, params := some params } :: nesting.frames }
  /-- A handler that interrupts text is opened. -/
  | handler {kind : CallKind} {bookmark : Bookmark} (hkind : kind = .textGosub ∨ kind = .pretext)
      (h : bookmark.addr ≤ size) :
    Change size store nesting .handling
      { nesting with frames := .call (.ofBookmark kind bookmark) :: nesting.frames }
  /-- A call is opened out of the handler of a pause. -/
  | handlerCall {bookmark : Bookmark} (h : nesting.bookmark? = some bookmark) :
    Change size store nesting .inward
      { nesting with frames := .call (.ofBookmark .rgosub bookmark) :: nesting.frames }
  /-- A loop is opened. -/
  | loop {frame : LoopFrame} (hbody : frame.body ≤ size) (hstep : frame.step ≠ 0)
      (hcounter : frame.counter.isStr = false) (hnumber : frame.counter.Numbered)
      (hread : ∃ value, store.readInt frame.counter = .ok value) :
    Change size store nesting .inward { nesting with frames := .loop frame :: nesting.frames }
  /-- The innermost loop is finished. -/
  | finish {next : Nesting} (h : nesting.finishLoop = .ok next) : Change size store nesting .outward next
  /-- An operand of the innermost command is read. -/
  | params {params addr : Nat} (hparams : nesting.params? = some params) (hahead : params ≤ addr)
      (h : addr ≤ size) : Change size store nesting .outward (nesting.setParams addr)
  /-- The innermost frames are closed. -/
  | close {frames : List Frame} (h : frames <:+ nesting.frames) :
    Change size store nesting .outward { nesting with frames }
  /-- The frames of a saved game take the place of all others. -/
  | resume {frames : List Frame} (h : ∀ frame ∈ frames, frame.Within size) :
    Change size store nesting .anew { nesting with frames }

variable {size : Nat} {store : Store} {way : Direction} {nesting next : Nesting}

/-- The bookmark of the innermost handler is kept by an open call. -/
theorem exists_of_bookmark? {bookmark : Bookmark} (h : nesting.bookmark? = some bookmark) :
    ∃ call, Frame.call call ∈ nesting.frames ∧ call.bookmark = some bookmark := by
  obtain ⟨frame, hframe, hfound⟩ := List.exists_of_findSome?_eq_some h
  obtain ⟨call, hcall, hbookmark⟩ := Option.bind_eq_some_iff.mp hfound
  obtain ⟨rfl, -⟩ := Frame.callOf?_eq_some hcall
  exact ⟨call, hframe, hbookmark⟩

/-- So are the operands of the innermost subroutine command. -/
theorem exists_of_params? {params : Nat} (h : nesting.params? = some params) :
    ∃ call, Frame.call call ∈ nesting.frames ∧ call.params = some params := by
  obtain ⟨call, hfound, hparams⟩ := Option.bind_eq_some_iff.mp h
  obtain ⟨frame, hframe, hcall⟩ := List.exists_of_findSome?_eq_some hfound
  obtain ⟨rfl, -⟩ := Frame.callOf?_eq_some hcall
  exact ⟨call, hframe, hparams⟩

/-- Only the innermost frame is a loop that can be finished. -/
theorem finishLoop_eq_ok (h : nesting.finishLoop = .ok next) :
    ∃ loop rest, nesting.frames = .loop loop :: rest ∧
      next = { nesting with frames := .loop { loop with finished := true } :: rest } := by
  obtain ⟨_ | ⟨⟨frame⟩ | ⟨frame⟩, frames⟩, cap⟩ := nesting
  · cases h
  · cases h
  · cases h
    exact ⟨frame, frames, rfl, rfl⟩

/-- Reading operands puts one address in place of another. -/
theorem forall_addresses_setParamsIn {P : Nat → Prop} {addr : Nat} (haddr : P addr)
    {frames : List Frame} (h : ∀ frame ∈ frames, ∀ held ∈ frame.addresses, P held) :
    ∀ frame ∈ setParamsIn addr frames, ∀ held ∈ frame.addresses, P held := by
  induction frames with
  | nil => exact h
  | cons first frames ih =>
    obtain ⟨hfirst, hrest⟩ := List.forall_mem_cons.mp h
    cases first with
    | loop frame => exact List.forall_mem_cons.mpr ⟨hfirst, ih hrest⟩
    | call frame =>
      rw [setParamsIn]
      split
      · refine List.forall_mem_cons.mpr ⟨?_, hrest⟩
        simp only [Frame.addresses, List.forall_mem_cons, List.forall_mem_append] at hfirst ⊢
        exact ⟨hfirst.1, by simpa using haddr, hfirst.2.2⟩
      · exact List.forall_mem_cons.mpr ⟨hfirst, ih hrest⟩

/-- All addresses of all frames are at most `size`. -/
def Within (size : Nat) (nesting : Nesting) : Prop :=
  ∀ frame ∈ nesting.frames, frame.Within size

private theorem Within.cons (h : nesting.Within size) {frame : Frame} (hframe : frame.Within size) :
    Within size { nesting with frames := frame :: nesting.frames } := fun f hf => by
  rcases List.mem_cons.mp hf with rfl | hf
  · exact hframe
  · exact h f hf

private theorem Within.bookmark? (h : nesting.Within size) {bookmark : Bookmark}
    (hbookmark : nesting.bookmark? = some bookmark) : bookmark.addr ≤ size := by
  obtain ⟨call, hcall, hsome⟩ := exists_of_bookmark? hbookmark
  exact (h _ hcall).2.2 _ hsome

private theorem within_ofBookmark {kind : CallKind} {bookmark : Bookmark}
    (h : bookmark.addr ≤ size) : (Frame.call (.ofBookmark kind bookmark)).Within size :=
  ⟨h, by simp [CallFrame.ofBookmark], by simpa [CallFrame.ofBookmark] using h⟩

/-- No change leads to an address beyond the end. -/
theorem Within.change (h : nesting.Within size) (hchange : Change size store nesting way next) :
    next.Within size := by
  cases hchange with
  | call hreturn => exact h.cons ⟨hreturn, by simp, by simp⟩
  | command hreturn hparams =>
    exact h.cons ⟨hreturn, by simpa using hparams, by simp⟩
  | handler hkind hbookmark => exact h.cons (within_ofBookmark hbookmark)
  | handlerCall hbookmark => exact h.cons (within_ofBookmark (h.bookmark? hbookmark))
  | loop hbody hstep hcounter hnumber hread => exact h.cons hbody
  | finish hfinish =>
    obtain ⟨loop, rest, hframes, rfl⟩ := finishLoop_eq_ok hfinish
    rw [Within, hframes] at h
    obtain ⟨hloop, hrest⟩ := List.forall_mem_cons.mp h
    exact List.forall_mem_cons.mpr ⟨hloop, hrest⟩
  | params hparams hahead haddr =>
    have hheld := forall_addresses_setParamsIn (P := (· ≤ size)) haddr fun frame hframe =>
      Frame.within_iff.mp (h frame hframe)
    exact fun frame hframe => Frame.within_iff.mpr (hheld frame hframe)
  | close hsuffix => exact fun frame hframe => h frame (hsuffix.subset hframe)
  | resume hframes => exact hframes

/-- No change moves the cap. -/
theorem Change.cap_eq (h : Change size store nesting way next) : next.cap = nesting.cap := by
  cases h with
  | finish hfinish =>
    obtain ⟨loop, rest, -, rfl⟩ := finishLoop_eq_ok hfinish
    rfl
  | call | command | handler | handlerCall | loop | params | close | resume => rfl

end Nesting

/-- The direction in which a command changes what is open, if it changes anything there. -/
def Command.direction : Command → Nesting.Direction
  | gosub | rgosub | forLoop => .inward
  | loadgame => .anew
  | _ => .outward

/-- The direction in which a command word changes what is open. A word that is no command is
text. -/
def CommandTable.directionOf (table : CommandTable) (word : CommandWord) : Nesting.Direction :=
  match table.resolve word with
  | .builtin command => command.direction
  | .subroutine _ => .inward
  | .host _ => .still
  | .unknown => .handling

/-- The place of a machine in its script, its variables, what is open, and what the machine was
given beside the script. -/
structure Core where
  /-- The script. -/
  script : Script
  /-- The labels of the script. -/
  labels : LabelTable
  /-- The variables. -/
  store : Store
  /-- Open calls and loops. -/
  nesting : Nesting
  /-- The next byte. -/
  pc : Nat
  /-- Start of the current statement. -/
  statementStart : Nat
  /-- The address after the last section marker that was passed. -/
  lastSection : Option Nat
  /-- The source of random numbers. -/
  source : RandomSource
  /-- The characters of the double-byte encoding. -/
  table : Text.ShiftJis.Table

namespace Core

/-- One change to the core of a machine. What is open changes in one direction only. -/
inductive Step (way : Nesting.Direction) (core : Core) : Core → Prop where
  /-- The machine goes on at another address. -/
  | move {addr : Nat} (h : addr ≤ core.script.size) : Step way core { core with pc := addr }
  /-- A statement begins. -/
  | begin {addr : Nat} (h : addr ≤ core.script.size) :
    Step way core { core with statementStart := addr }
  /-- A section marker is passed. -/
  | pass {addr : Nat} (h : addr ≤ core.script.size) :
    Step way core { core with lastSection := some addr }
  /-- The variables are edited. -/
  | edit {store : Store} (h : Store.Edits way.Allows core.store store) :
    Step way core { core with store }
  /-- The counter of an open loop is written. -/
  | count {frame : LoopFrame} {value : Int32} {store : Store}
      (hframe : Frame.loop frame ∈ core.nesting.frames)
      (h : core.store.writeInt value frame.counter = .ok store) :
    Step way core { core with store }
  /-- A call or a loop is opened or closed. -/
  | nest {nesting : Nesting}
      (h : Nesting.Change core.script.size core.store core.nesting way nesting) :
    Step way core { core with nesting }

/-- The labels are those of the script, and all addresses are addresses of the script. -/
structure Inside (s : Script) (core : Core) : Prop where
  /-- The script is the given one. -/
  script : core.script = s
  /-- The labels are those of the script. -/
  labels : core.labels = (LabelTable.build s).1
  /-- The next byte is in the script, or the end. -/
  pc : core.pc ≤ s.size
  /-- So is the current statement. -/
  statementStart : core.statementStart ≤ s.size
  /-- So is the last section. -/
  lastSection : ∀ addr ∈ core.lastSection, addr ≤ s.size
  /-- So are all addresses of frames. -/
  nesting : core.nesting.Within s.size

variable {way : Nesting.Direction}

/-- No change leads out of the script. -/
theorem Inside.step {script : Script} {core next : Core} (h : core.Inside script)
    (hstep : Step way core next) : next.Inside script := by
  obtain ⟨rfl, hlabels, hpc, hstart, hsection, hnesting⟩ := h
  cases hstep with
  | move haddr => exact ⟨rfl, hlabels, haddr, hstart, hsection, hnesting⟩
  | begin haddr => exact ⟨rfl, hlabels, hpc, haddr, hsection, hnesting⟩
  | pass haddr =>
    exact ⟨rfl, hlabels, hpc, hstart, by simpa using haddr, hnesting⟩
  | edit hedit => exact ⟨rfl, hlabels, hpc, hstart, hsection, hnesting⟩
  | count hframe hwrite => exact ⟨rfl, hlabels, hpc, hstart, hsection, hnesting⟩
  | nest hchange => exact ⟨rfl, hlabels, hpc, hstart, hsection, hnesting.change hchange⟩

private theorem Step.edits {core next : Core} (h : Step way core next) :
    Store.Edits (fun _ _ => True) core.store next.store := by
  cases h with
  | edit hedit => exact hedit.mono fun _ _ _ => trivial
  | count hframe hwrite =>
    obtain ⟨edit, -, hedit⟩ := Store.edit_of_writeInt hwrite
    exact .single edit trivial hedit
  | move | begin | pass | nest => exact .refl

/-- Without a change the same calls and loops are open. -/
theorem nesting_of_steps {core next : Core} (hway : way = .still ∨ way = .edited)
    (h : Relation.ReflTransGen (Step way) core next) : next.nesting = core.nesting := by
  induction h with
  | refl => rfl
  | tail _ hstep ih =>
    cases hstep with
    | nest hchange => rcases hway with rfl | rfl <;> cases hchange
    | move | begin | pass | edit | count => exact ih

/-- No step changes how many frames may be open. -/
theorem cap_of_steps {core next : Core} (h : Relation.ReflTransGen (Step way) core next) :
    next.nesting.cap = core.nesting.cap := by
  induction h with
  | refl => rfl
  | tail _ hstep ih =>
    cases hstep with
    | nest hchange => exact hchange.cap_eq.trans ih
    | move | begin | pass | edit | count => exact ih

/-- No step replaces the source of random numbers or the characters of the encoding. -/
theorem given_of_steps {core next : Core} (h : Relation.ReflTransGen (Step way) core next) :
    next.source = core.source ∧ next.table = core.table := by
  induction h with
  | refl => exact ⟨rfl, rfl⟩
  | tail _ hstep ih => cases hstep <;> exact ih

/-- The variables are only ever edited. -/
theorem edits_of_steps {core next : Core} (h : Relation.ReflTransGen (Step way) core next) :
    Store.Edits (fun _ _ => True) core.store next.store := by
  induction h with
  | refl => exact .refl
  | tail _ hstep ih => exact ih.trans hstep.edits

end Core

/-- The names of the labels passed and of the files used, and what was reported. -/
structure Logs where
  /-- The labels passed. -/
  labels : NameLog
  /-- The files used. -/
  files : NameLog
  /-- What was reported. -/
  journal : List Notice

/-- What is reported of an address: the name of its label and its line. -/
def Script.reportAt (script : Script) (addr : Nat) : String × Nat :=
  let labels := (LabelTable.build script).1
  (((labels.enclosing? addr).map Label.name).getD "", labels.lineInLabel script addr)

/-- One change to the logs of a machine that runs the script, while warnings tell one of some
addresses. -/
inductive Logs.Step (script : Script) (told : Nat → Prop) (logs : Logs) : Logs → Prop where
  /-- The script asks for labels to be recorded. -/
  | enableLabels :
    Step script told logs { logs with labels := { logs.labels with enabled := true } }
  /-- The script asks for files to be recorded. -/
  | enableFiles :
    Step script told logs { logs with files := { logs.files with enabled := true } }
  /-- A label is passed. -/
  | label {addr : Nat} {tags : Bool} {name : String}
      (h : (script.statementAt addr tags).kind = .label name) :
    Step script told logs { logs with labels := logs.labels.record name }
  /-- The host has used a file. -/
  | file (name : String) : Step script told logs { logs with files := logs.files.record name }
  /-- A warning is reported, with the place of a statement. -/
  | warn {addr : Nat} (h : addr ≤ script.size) (htold : told addr) (cause : Warning) :
    Step script told logs { logs with
      journal := logs.journal ++ [.warning cause (script.reportAt addr).1 (script.reportAt addr).2] }
  /-- Something else is reported. -/
  | note {notices : List Notice}
      (h : ∀ cause label line, Notice.warning cause label line ∉ notices) :
    Step script told logs { logs with journal := logs.journal ++ notices }

/-- Warnings may tell more. -/
theorem Logs.steps_mono {script : Script} {told told' : Nat → Prop} {logs next : Logs}
    (htold : ∀ addr, told addr → told' addr)
    (h : Relation.ReflTransGen (Logs.Step script told) logs next) :
    Relation.ReflTransGen (Logs.Step script told') logs next := by
  refine h.lift id fun logs next hstep => ?_
  cases hstep with
  | enableLabels => exact .enableLabels
  | enableFiles => exact .enableFiles
  | label hkind => exact .label hkind
  | file name => exact .file name
  | warn haddr haddr' cause => exact .warn haddr (htold _ haddr') cause
  | note hplain => exact .note hplain

namespace Machine

/-- The core of a machine. -/
def core (m : Machine) : Core :=
  { script := m.script, labels := m.labels, store := m.store, nesting := m.nesting, pc := m.pc
    statementStart := m.statementStart, lastSection := m.lastSection
    source := m.chance.source, table := m.table }

/-- The logs of a machine. -/
def logs (m : Machine) : Logs :=
  { labels := m.labelLog, files := m.fileLog, journal := m.journal }

/-- The statement at an address is the current one before a machine changes or after it. -/
def Current (first m : Machine) (addr : Nat) : Prop :=
  addr = first.statementStart ∨ addr = m.statementStart

/-- The machine runs a script and has come out of another machine by changes of its core, those of
what is open all in one direction, and by changes of its logs. Warnings tell the statement that was
current, or the one that is. -/
structure Evolves (way : Nesting.Direction) (script : Script) (first m : Machine) : Prop where
  /-- It is inside the script. -/
  inside : m.core.Inside script
  /-- It has come out of the first machine. -/
  steps : Relation.ReflTransGen (Core.Step way) first.core m.core
  /-- So have its logs. -/
  logs : Relation.ReflTransGen (Logs.Step script (Current first m)) first.logs m.logs

/-- At first nothing has happened. -/
theorem Evolves.refl {way : Nesting.Direction} {script : Script} {m : Machine}
    (h : m.core.Inside script) : Evolves way script m m :=
  ⟨h, .refl, .refl⟩

/-- Without a change the same calls and loops are open. -/
theorem Evolves.nesting_eq {way : Nesting.Direction} {script : Script} {first m : Machine}
    (hway : way = .still ∨ way = .edited) (h : Evolves way script first m) :
    m.nesting = first.nesting :=
  Core.nesting_of_steps hway h.steps

namespace Evolves

variable {way : Nesting.Direction} {script : Script} {first m next : Machine}
  (h : Evolves way script first m)
include h

private theorem logs_of_statementStart (hstart : next.statementStart = m.statementStart) :
    Relation.ReflTransGen (Logs.Step script (Current first next)) first.logs m.logs :=
  Logs.steps_mono (fun _ haddr => haddr.imp_right fun heq => heq.trans hstart.symm) h.logs

/-- The same statement goes on. -/
theorem step (hstep : Core.Step way m.core next.core)
    (hstart : next.statementStart = m.statementStart) (hlogs : next.logs = m.logs) :
    Evolves way script first next :=
  ⟨h.inside.step hstep, h.steps.tail hstep, hlogs ▸ h.logs_of_statementStart hstart⟩

/-- A statement begins, and all warnings so far tell the one before. -/
theorem begin (hfirst : m.statementStart = first.statementStart) {addr : Nat}
    (haddr : addr ≤ script.size) (hcore : next.core = { m.core with statementStart := addr })
    (hlogs : next.logs = m.logs) : Evolves way script first next := by
  have hstep : Core.Step way m.core next.core := hcore ▸ .begin (h.inside.script.symm ▸ haddr)
  refine ⟨h.inside.step hstep, h.steps.tail hstep, hlogs ▸ Logs.steps_mono ?_ h.logs⟩
  exact fun _ htold => .inl (htold.elim id fun heq => heq.trans hfirst)

/-- What is outside the core and the logs may change in any way. -/
theorem aside (hcore : next.core = m.core) (hlogs : next.logs = m.logs) :
    Evolves way script first next :=
  ⟨hcore ▸ h.inside, hcore ▸ h.steps,
    hlogs ▸ h.logs_of_statementStart (congrArg Core.statementStart hcore)⟩

/-- The machine uses what it was given at first. -/
theorem given : m.chance.source = first.chance.source ∧ m.table = first.table :=
  Core.given_of_steps h.steps

/-- Numbers may be drawn from the source. -/
theorem draw {chance : Chance} (hsource : chance.source = first.chance.source) :
    Evolves way script first { m with chance } := by
  refine h.aside ?_ rfl
  simp only [core, hsource, h.given.1]

/-- A step of the logs is one that the machine may make. -/
theorem log (hstep : Logs.Step script (Current first next) m.logs next.logs)
    (hcore : next.core = m.core) : Evolves way script first next :=
  ⟨hcore ▸ h.inside, hcore ▸ h.steps,
    (h.logs_of_statementStart (congrArg Core.statementStart hcore)).tail hstep⟩

/-- The script of the machine is the script. -/
theorem script_eq : m.script = script :=
  h.inside.script

/-- A warning tells the place of the current statement. -/
theorem warn (cause : Warning) (count : Nat) :
    Evolves way script first { m with
      warningCount := count
      journal := m.journal ++ [.warning cause m.location.label m.location.line] } := by
  refine h.log ?_ rfl
  have hstep : Logs.Step script (Current first m) m.logs _ :=
    .warn h.inside.statementStart (.inr rfl) cause
  have hreport : (m.location.label, m.location.line) = script.reportAt m.core.statementStart := by
    rw [Script.reportAt, ← h.inside.labels, ← h.inside.script]
    rfl
  rwa [← hreport] at hstep

/-- The next byte is in the script or at its end. -/
theorem pc_le : m.pc ≤ script.size :=
  h.inside.pc

/-- So is the cursor. -/
theorem cursor_le : m.cursor ≤ script.size := by
  rw [cursor, h.script_eq]
  exact Nat.min_le_right _ _

/-- The machine may go on at any address of the script. -/
theorem move {addr : Nat} (haddr : addr ≤ script.size)
    (hcore : next.core = { m.core with pc := addr }) (hlogs : next.logs = m.logs) :
    Evolves way script first next := by
  refine h.step (hcore ▸ .move ?_) (congrArg Core.statementStart hcore) hlogs
  rwa [h.inside.script]

/-- Edits of the variables that go along with the direction may be made. -/
theorem edit {store : Store} (hstore : Store.Edits way.Allows m.store store)
    (hcore : next.core = { m.core with store }) (hlogs : next.logs = m.logs) :
    Evolves way script first next :=
  h.step (hcore ▸ .edit hstore) (congrArg Core.statementStart hcore) hlogs

/-- The counter of an open loop may be written. -/
theorem count {frame : LoopFrame} {value : Int32} {store : Store}
    (hframe : Frame.loop frame ∈ m.nesting.frames)
    (hstore : m.store.writeInt value frame.counter = .ok store)
    (hcore : next.core = { m.core with store }) (hlogs : next.logs = m.logs) :
    Evolves way script first next :=
  h.step (hcore ▸ .count hframe hstore) (congrArg Core.statementStart hcore) hlogs

/-- The open calls and loops may be changed in the direction. -/
theorem nest {nesting : Nesting}
    (hnesting : Nesting.Change script.size m.store m.nesting way nesting)
    (hcore : next.core = { m.core with nesting }) (hlogs : next.logs = m.logs) :
    Evolves way script first next := by
  refine h.step (hcore ▸ .nest ?_) (congrArg Core.statementStart hcore) hlogs
  rwa [h.inside.script]

/-- A statement ends inside the script. -/
theorem statementEnd_le (addr : Nat) : m.statementEnd addr ≤ script.size := by
  rw [← h.script_eq]
  exact Script.skipStatement_le_size false (Nat.min_le_right _ _)

/-- Labels are inside the script. -/
theorem label_le {name : String} {label : Label} (hlabel : m.labels.byName name = .ok label) :
    label.start ≤ script.size := by
  have hmem := LabelTable.mem_of_byName hlabel
  rw [show m.labels = _ from h.inside.labels] at hmem
  exact (LabelTable.stands_of_mem_build hmem).start.le_size

end Evolves

end Machine

end NovelScript
