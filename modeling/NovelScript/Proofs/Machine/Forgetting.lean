import NovelScript.Proofs.Machine.Loading
import NovelScript.Proofs.Machine.Loads
import NovelScript.Proofs.Records.Calls
import NovelScript.Proofs.Store.Reset
import NovelScript.Proofs.Store.Restore

/-!
# What a new game knows of the one before

The game that is played is abandoned when the script resets it or when a save slot is loaded. What
happens from then on should not depend on it. Most of it is indeed forgotten: the place, the text
that was being read, open calls and loops, local variables and arrays.

Some traces stay, though. The address after the last section marker outlives a reset and a load, so
that the next `jumpb` may go back to a section of the abandoned game. A load also leaves the last
tag in front of text, and, if the saved game goes on in the middle of text, the place that failures
tell. Machines that agree in these traces, and in what is not part of any game, do go on in the same
way.
-/

namespace NovelScript

namespace Records

/-- The records agree in the settings and in all files but that of the marks, which can be written
to both or to none. They also agree in the marks, if `P` holds. -/
structure SameFiles (P : Prop) (r t : Records) : Prop where
  /-- The settings are the same. -/
  settings : t.settings = r.settings
  /-- The same saves are found. -/
  saves : r.saves.Agrees t.saves
  /-- The system treats the coming attempts to write the marks alike. -/
  refusals : t.saves.refusals Machine.marksFile = r.saves.refusals Machine.marksFile
  /-- The marks are the same. -/
  marks : P → t.marks = r.marks

/-- What the system does with the marks stays the same, whichever file is attempted in both. -/
theorem SameFiles.refusals_attempt {P : Prop} {r t : Records} (h : SameFiles P r t) (name : String)
    (bytes bytes' : Bytes) : (t.saves.attempt name bytes').refusals Machine.marksFile =
      (r.saves.attempt name bytes).refusals Machine.marksFile := by
  funext k
  rw [SaveArea.refusals_attempt, SaveArea.refusals_attempt, h.refusals]

/-- Such records are treated alike by everything that a machine does. -/
theorem tracking_sameFiles (P : Prop) :
    Machine.Tracking (SameFiles P) False fun s t => P → s = t where
  strict h := by rw [h.settings]
  saves h := h.saves
  note h _ _ := ⟨h.settings, h.saves, h.refusals, h.marks⟩
  write h name hname bytes :=
    ⟨h.settings, h.saves.attempt hname bytes, h.refusals_attempt name bytes bytes, h.marks⟩
  writeMarks {r t} h := by
    have hsaves := h.saves.writeMarks
    unfold writeMarks at hsaves ⊢
    rw [h.settings] at hsaves ⊢
    split at hsaves
    · next htrack =>
      rw [if_pos htrack, if_pos htrack]
      exact ⟨h.settings, hsaves, h.refusals_attempt _ _ _, h.marks⟩
    · next htrack =>
      rw [if_neg htrack, if_neg htrack]
      exact h
  marksRefusal h := .inr (by rw [marksRefusal, marksRefusal, h.settings, h.refusals])
  refl _ _ := rfl
  seen h addr hP := by simp only [seen, h.settings, h.marks hP]
  mark h addr :=
    ⟨h.settings, h.saves, h.refusals, fun hP => by simp only [mark, h.settings, h.marks hP]⟩

end Records

namespace Machine

open NovelScript.Action (Keeps)

variable {m n : Machine}

private theorem Answer.Alike.eq {E : Bool → Bool → Prop} (hE : ∀ s t, E s t → s = t)
    {first second : Answer} (h : Answer.Alike E first second) : second = first := by
  cases h with
  | ok h =>
    obtain ⟨reply, s, t, rfl, rfl, hst⟩ := h
    rw [hE s t hst]
  | error failure => rfl

/-- Machines that tell the same story with the same files have the same answers to all calls, up to
whether text was read before; with the same marks, also in that respect. -/
theorem serveAll_sameFiles {P : Prop} (h : Linked (Records.SameFiles P) m n)
    (calls : List HostCall) :
    (n.serveAll calls).1.map Answer.unseen = (m.serveAll calls).1.map Answer.unseen ∧
      (P → (n.serveAll calls).1 = (m.serveAll calls).1) := by
  induction calls generalizing m n with
  | nil => exact ⟨rfl, fun _ => rfl⟩
  | cons call calls ih =>
    have hserve := serve_linked (Records.tracking_sameFiles P) h call
    obtain ⟨hlinked, halike⟩ := hserve.resolve_right fun hparting => hparting.1
    obtain ⟨hunseen, hsame⟩ := ih hlinked
    rw [serveAll_cons, serveAll_cons, List.map_cons, List.map_cons, hunseen, halike.unseen_eq]
    refine ⟨rfl, fun hP => ?_⟩
    rw [hsame hP, halike.eq fun s t hst => hst hP]

/-! ## The parts of a machine -/

/-- What a machine keeps from one game to the next, beside global variables and files. -/
structure Setup where
  /-- The script. -/
  script : Script
  /-- The named constants. -/
  aliases : Aliases
  /-- Commands of the script and of the host. -/
  commands : CommandTable
  /-- Handler of pauses in text. -/
  textHook : Option String
  /-- Handler of tags in front of text. -/
  pretextHook : Option String
  /-- How text is cut and numbers are shown. -/
  style : TextStyle
  /-- The labels passed. -/
  labelLog : NameLog
  /-- The files used. -/
  fileLog : NameLog
  /-- Whether the global variables are kept between sessions. -/
  keepGlobals : Bool
  /-- Whether the host may pass quickly over text that was read before. -/
  skipRead : Bool
  /-- The source of random numbers. -/
  chance : Chance
  /-- The characters of the double-byte encoding. -/
  table : Text.ShiftJis.Table

/-- The setups compare equal: everything is the same in them but what a machine is given from
outside, which is not to be compared. -/
def Setup.Matches (first second : Setup) : Prop :=
  second.script = first.script ∧ second.aliases = first.aliases ∧
    second.commands = first.commands ∧ second.textHook = first.textHook ∧
    second.pretextHook = first.pretextHook ∧ second.style = first.style ∧
    second.labelLog = first.labelLog ∧ second.fileLog = first.fileLog ∧
    second.keepGlobals = first.keepGlobals ∧ second.skipRead = first.skipRead ∧
    second.chance.asked = first.chance.asked

/-- Setups can be compared. -/
instance (first second : Setup) : Decidable (first.Matches second) :=
  inferInstanceAs (Decidable (_ ∧ _))

/-- Setups that compare equal are the same if machines were given the same. -/
theorem Setup.Matches.eq {first second : Setup} (h : first.Matches second)
    (hsource : second.chance.source = first.chance.source) (htable : second.table = first.table) :
    second = first := by
  obtain ⟨_, _, _, _, _, _, _, _, _, _, ⟨_, _⟩, _⟩ := first
  obtain ⟨_, _, _, _, _, _, _, _, _, _, ⟨_, _⟩, _⟩ := second
  simp only [Matches] at h hsource htable
  simp only [h, hsource, htable]

/-- The game that is played. -/
structure Play where
  /-- The variables. -/
  store : Store
  /-- Open calls and loops. -/
  nesting : Nesting
  /-- The next byte. -/
  pc : Nat
  /-- Whether that is in the middle of text. -/
  inText : Bool
  /-- Whether narrow mode is on. -/
  narrow : Bool
  /-- The last tag in front of text. -/
  pretextTag : Bytes
  /-- The address after the last section marker that was passed. -/
  lastSection : Option Nat
  /-- Command of the host that waits to be finished. -/
  pendingHost : Option String
  /-- Whether the script has ended. -/
  ended : Bool
  deriving DecidableEq

/-- What the machine keeps from one game to the next. -/
def setup (m : Machine) : Setup where
  script := m.script
  aliases := m.aliases
  commands := m.commands
  textHook := m.textHook
  pretextHook := m.pretextHook
  style := m.style
  labelLog := m.labelLog
  fileLog := m.fileLog
  keepGlobals := m.keepGlobals
  skipRead := m.skipRead
  chance := m.chance
  table := m.table

/-- The game that the machine plays. -/
def play (m : Machine) : Play where
  store := m.store
  nesting := m.nesting
  pc := m.pc
  inText := m.inText
  narrow := m.narrow
  pretextTag := m.pretextTag
  lastSection := m.lastSection
  pendingHost := m.pendingHost
  ended := m.ended

/-- The machine at the place of another one. -/
def atPlaceOf (n m : Machine) : Machine :=
  { n with statementStart := m.statementStart, statementName := m.statementName }

/-- A machine is made of its setup, its labels, its game, its place and its records. -/
theorem eq_of_parts (hsetup : n.setup = m.setup) (hlabels : n.labels = m.labels)
    (hplay : n.play = m.play) : n.atPlaceOf m = m.withRecords n.records := by
  let assemble (setup : Setup) (labels : LabelTable) (play : Play) : Machine :=
    { setup, play, n.records with
      labels, statementStart := m.statementStart, statementName := m.statementName }
  show assemble n.setup n.labels n.play = assemble m.setup m.labels m.play
  rw [hsetup, hlabels, hplay]

/-! ## Steps -/

/-- However many steps both machines take, the answers are the same, up to whether text was read
before; if the machines start with the same marks, also in that respect. -/
def SameSteps (m n : Machine) : Prop :=
  ∀ count : Nat,
    let steps := List.replicate count HostCall.step
    (n.serveAll steps).1.map Answer.unseen = (m.serveAll steps).1.map Answer.unseen ∧
      (n.marks = m.marks → (n.serveAll steps).1 = (m.serveAll steps).1)

/-- The place of the statement before is forgotten by a step to the next statement. -/
theorem serveAll_atPlaceOf {addr : Nat} (h : n.ArrivedAt addr) (count : Nat) :
    ((n.atPlaceOf m).serveAll (List.replicate count .step)).1 =
      (n.serveAll (List.replicate count .step)).1 := by
  cases count with
  | zero => rfl
  | succ count =>
    have harrived : (n.atPlaceOf m).ArrivedAt addr := ⟨h.pc, h.pending, h.running, h.statement⟩
    have hrun : runStatement (n.atPlaceOf m) = runStatement n := by
      rw [runStatement_eq, runStatement_eq]
      rfl
    have hstep : step (n.atPlaceOf m) = step n := by
      rw [harrived.step_eq, h.step_eq, located, located, hrun]
    have hserve : (n.atPlaceOf m).serve .step = n.serve .step := by
      have hperform : HostCall.step.perform (n.atPlaceOf m) = HostCall.step.perform n := by
        simp only [HostCall.perform, bind, EStateM.bind, hstep]
      rw [serve, serve, hperform]
    rw [List.replicate_succ, serveAll_cons, serveAll_cons, hserve]

/-- Machines that play the same game take the same steps. -/
theorem sameSteps_of_play (hsetup : n.setup = m.setup) (hlabels : n.labels = m.labels)
    (hplay : n.play = m.play) (hsettings : n.settings = m.settings)
    (hsaves : m.saves.Agrees n.saves)
    (hrefusals : n.saves.refusals marksFile = m.saves.refusals marksFile)
    (hplace : n.atPlaceOf m = n ∨ ∃ addr, n.ArrivedAt addr) : SameSteps m n := by
  intro count
  have hlinked : Linked (Records.SameFiles (n.marks = m.marks)) m (n.atPlaceOf m) :=
    ⟨n.records, eq_of_parts hsetup hlabels hplay, hsettings, hsaves, hrefusals, id⟩
  have hanswers := serveAll_sameFiles hlinked (List.replicate count .step)
  obtain hplace | ⟨addr, harrived⟩ := hplace
  · rwa [hplace] at hanswers
  · rwa [serveAll_atPlaceOf harrived] at hanswers

/-! ## Machines with the same setup -/

/-- The machines agree in everything that is not part of the game: the setup, the settings, the save
files and which files can be written, the global variables, and the bounds of all variables. -/
structure SameSetup (m n : Machine) : Prop where
  /-- The setup is the same. -/
  setup : n.setup = m.setup
  /-- The settings are the same. -/
  settings : n.settings = m.settings
  /-- The same saves are found. -/
  saves : m.saves.Agrees n.saves
  /-- The system treats the coming attempts to write the marks alike. -/
  refusals : n.saves.refusals marksFile = m.saves.refusals marksFile
  /-- Global variables and bounds are the same. -/
  store : m.store.SameGlobals n.store

/-- The cap on open calls and loops is that of the settings. -/
theorem Reachable.cap_eq (h : Reachable m) : m.nesting.cap = m.settings.maxNesting := by
  induction h with
  | load h =>
    obtain ⟨labelLog, fileLog, store, -, -, -, rfl⟩ := loadPersistent_eq_ok h
    rfl
  | @serve m h call ih =>
    rw [settings_serve, ← ih]
    exact Core.cap_of_steps (evolves_serve h.inside call).steps

/-- So is the number of fixed slots. -/
theorem Reachable.size_eq (h : Reachable m) : m.store.fixed.size = m.settings.variableSlots := by
  induction h with
  | load h =>
    obtain ⟨labelLog, fileLog, store, -, -, hstore, rfl⟩ := loadPersistent_eq_ok h
    rw [(edits_loadGlobals hstore).size_eq]
    simp [fresh, Store.blank]
  | @serve m h call ih =>
    rw [settings_serve, ← ih]
    exact (Core.edits_of_steps (evolves_serve h.inside call).steps).size_eq

/-! ## Games that begin -/

/-- From the first machine, the second one has come to a game. It is otherwise the same, but for the
place, the marks and the warnings. -/
structure ComesTo (m : Machine) (play : Play) (n : Machine) : Prop where
  /-- The setup is the same. -/
  setup : n.setup = m.setup
  /-- The labels are the same. -/
  labels : n.labels = m.labels
  /-- The settings are the same. -/
  settings : n.settings = m.settings
  /-- The save files are the same. -/
  saves : n.saves = m.saves
  /-- This is the game. -/
  play : n.play = play

/-- From the first machine, the second one has moved on in its game. -/
def MovedOn (m n : Machine) : Prop :=
  ComesTo m { m.play with pc := n.pc, pendingHost := n.pendingHost } n

/-- Going on at another address is moving on. -/
theorem MovedOn.move (h : MovedOn m n) (pc : Nat) : MovedOn m { n with pc } :=
  ⟨h.setup, h.labels, h.settings, h.saves, congrArg (fun play => { play with pc }) h.play⟩

/-- So is giving warnings. -/
theorem MovedOn.warn (h : MovedOn m n) (count : Nat) (journal : List Notice) :
    MovedOn m { n with warningCount := count, journal } :=
  ⟨h.setup, h.labels, h.settings, h.saves, h.play⟩

/-- So is coming to the operands of a command. -/
theorem MovedOn.atCommand (h : MovedOn m n) (word : CommandWord) : MovedOn m (n.atCommand word) :=
  ⟨h.setup, h.labels, h.settings, h.saves,
    congrArg (fun play => { play with pc := (n.atCommand word).pc }) h.play⟩

/-- So is finishing the command of the host that was pending. -/
theorem movedOn_settled {settled : Machine} (h : m.settled? = some settled) : MovedOn m settled :=
  of_settled? (I := MovedOn m) (fun _ pc h => h.move pc)
    (fun _ count journal h => h.warn count journal) ⟨rfl, rfl, rfl, rfl, rfl⟩ h

private theorem MovedOn.trans {l : Machine} (h : MovedOn m n) (h' : MovedOn n l) : MovedOn m l := by
  refine ⟨h'.setup.trans h.setup, h'.labels.trans h.labels, h'.settings.trans h.settings,
    h'.saves.trans h.saves, ?_⟩
  exact h'.play.trans (congrArg (fun play : Play =>
    { play with pc := l.pc, pendingHost := l.pendingHost }) h.play)

private theorem MovedOn.scope_eq (h : MovedOn m n) : n.scope = m.scope := by
  have hscript : n.script = m.script := congrArg Setup.script h.setup
  have haliases : n.aliases = m.aliases := congrArg Setup.aliases h.setup
  have hstore : n.store = m.store := congrArg Play.store h.play
  rw [scope, scope, hscript, haliases, hstore]

private theorem MovedOn.slotExists_eq (h : MovedOn m n) (slot : Int32) :
    n.slotExists slot = m.slotExists slot := by
  rw [slotExists, slotExists, readSaved?, readSaved?, h.saves]

/-- Reading an operand moves on. -/
theorem MovedOn.operand {α : Type} {read : Operand.Scope → Operand.Reader α} {value : α}
    {after : Machine} (h : MovedOn m n) (hrun : operand read n = .ok value after) :
    MovedOn m after := by
  have hkeeps : Keeps (MovedOn m) (Machine.operand read) :=
    keeps_operand_of (fun _ pc h => h.move pc) (fun _ count journal h => h.warn count journal) read
  have hafter := hkeeps h
  rwa [Action.after_of_ok hrun] at hafter

/-- The game after a reset, at the address of the first label. -/
def Play.reset (play : Play) (start : Nat) : Play :=
  { play with
    store := play.store.reset
    nesting := play.nesting.clear
    pc := start
    inText := false
    narrow := false
    pretextTag := []
    pendingHost := none }

/-- The game after a load, with the frames and the address that were found for it. -/
def Play.resume (play : Play) (save : Save) (frames : List Frame) (pc : Nat) : Play :=
  { play with
    store := save.vars.restore play.store
    nesting := { play.nesting with frames := frames.reverse }
    pc
    inText := save.inText
    narrow := save.narrow
    pendingHost := none
    ended := false }

/-- The next step executes the command that resets the game, and succeeds. -/
def Resets (m : Machine) : Prop :=
  (∃ operands, m.upcoming? = some (.reset, operands)) ∧
    (m.serve .step).1 = .ok (.event .restarted)

/-- The call loads the game of a slot and succeeds: it is a call of the host for this slot, or a
step that executes the command of the script with an operand for this slot. -/
inductive Loads (slot : Int32) (m : Machine) : HostCall → Prop where
  /-- The host loads the slot. -/
  | host (hanswer : (m.serve (.loadSlot slot)).1 = .ok .done) : Loads slot m (.loadSlot slot)
  /-- The script loads the slot. -/
  | command {operands : Nat} {after : Operand.Cursor}
      (hcommand : m.upcoming? = some (.loadgame, operands))
      (hslot : m.scope.int { pos := operands } = .ok slot after)
      (hexists : m.slotExists slot = true)
      (hanswer : (m.serve .step).1 = .ok (.event .continued)) : Loads slot m .step

/-- A reset begins the game at its first label. -/
theorem comesTo_reset (h : Resets m) : ∃ label, m.labels.byName "start" = .ok label ∧
    m.ended = false ∧ ComesTo m (m.play.reset label.start) (m.serve .step).2 := by
  obtain ⟨⟨operands, hupcoming⟩, hanswer⟩ := h
  obtain ⟨settled, word, hsettled, hended, -, -, hexecutes⟩ := step_executes hupcoming
  have hmoved := (movedOn_settled hsettled).atCommand word
  have hrunning : m.ended = false := by
    rw [← hended]
    exact (congrArg Play.ended (movedOn_settled hsettled).play).symm
  have hstep : step m =
      located (restart >>= fun _ => pure .restarted) (settled.atCommand word) := hexecutes
  have hrestart : restart (settled.atCommand word) =
      (Action.ofExcept (m.labels.byName "start") >>= fun label =>
        modify fun m => { m with pc := label.start, inText := false } : Run Unit)
        { settled.atCommand word with
          store := (settled.atCommand word).store.reset
          nesting := (settled.atCommand word).nesting.clear
          narrow := false
          pretextTag := [] } := by
    rw [← hmoved.labels]
    rfl
  rw [serve_step, hstep, located] at hanswer ⊢
  cases hlabel : m.labels.byName "start" with
  | error fault =>
    rw [hlabel] at hrestart
    rw [Action.bind_of_error hrestart] at hanswer
    cases hanswer
  | ok label =>
    rw [hlabel] at hrestart
    rw [Action.bind_of_ok hrestart]
    refine ⟨label, rfl, hrunning, hmoved.setup, hmoved.labels, hmoved.settings, hmoved.saves, ?_⟩
    have hpending : settled.pendingHost = none := pendingHost_of_settled? hsettled
    show { (settled.atCommand word).play.reset label.start with
      pendingHost := settled.pendingHost } = m.play.reset label.start
    rw [hpending]
    exact (congrArg (Play.reset · label.start) hmoved.play).trans rfl

/-- Saved positions are found by the script and its labels. -/
theorem addressOf_congr (hscript : n.script = m.script) (hlabels : n.labels = m.labels) :
    n.addressOf = m.addressOf := by
  funext position
  simp only [addressOf, baseOf, hscript, hlabels]

private theorem framesOf_congr (hscript : n.script = m.script) (hlabels : n.labels = m.labels)
    (saved : List SavedFrame) : n.framesOf saved = m.framesOf saved := by
  have haddress := addressOf_congr hscript hlabels
  have hbookmark : n.bookmarkOf = m.bookmarkOf := by
    funext bookmark
    simp only [bookmarkOf, haddress]
  have hframe : n.frameOf = m.frameOf := by
    funext frame
    cases frame with
    | call code returnTo params bookmark => simp only [frameOf, haddress, hbookmark]
    | loop counter bound step body finished => simp only [frameOf, haddress]
  induction saved with
  | nil => rfl
  | cons frame rest ih => rw [framesOf, framesOf, hframe, ih]

/-- Loading a slot goes on with the game that is stored there. -/
theorem loadSlot_eq_ok {slot : Int32} {after : Machine} (h : loadSlot slot m = .ok () after) :
    ∃ save, m.Stores slot save ∧ m.restore save = .ok after := by
  obtain ⟨_, -, h⟩ := Action.exists_of_ofExcept_eq_ok h
  cases hread : m.readSaved? (Save.fileName slot) with
  | none =>
    rw [hread] at h
    cases h
  | some bytes =>
    rw [hread] at h
    obtain ⟨save, hsave, h⟩ := Action.exists_of_ofExcept_eq_ok h
    obtain ⟨restored, hrestored, h⟩ := Action.exists_of_ofExcept_eq_ok h
    cases h
    exact ⟨save, ⟨bytes, hread, hsave⟩, hrestored⟩

/-- A load begins the game that is stored. -/
theorem comesTo_loadSlot {slot : Int32} {after : Machine} (hmoved : MovedOn m n)
    (h : loadSlot slot n = .ok () after) :
    ∃ save frames pc, m.Stores slot save ∧ m.framesOf save.frames = .ok frames ∧
      m.addressOf save.position = .ok pc ∧ ComesTo m (m.play.resume save frames pc) after := by
  obtain ⟨save, hstores, hrestore⟩ := loadSlot_eq_ok h
  obtain ⟨frames, pc, hframes, hpc, rfl⟩ := restore_eq_ok hrestore
  have hscript : n.script = m.script := congrArg Setup.script hmoved.setup
  rw [framesOf_congr hscript hmoved.labels] at hframes
  rw [addressOf_congr hscript hmoved.labels] at hpc
  rw [Stores, readSaved?, hmoved.saves] at hstores
  refine ⟨save, frames, pc, hstores, hframes, hpc, hmoved.setup, hmoved.labels, hmoved.settings,
    hmoved.saves, ?_⟩
  exact (congrArg (Play.resume · save frames pc) hmoved.play).trans rfl

/-- The command of the script loads the slot that its operand tells, if it was written. -/
theorem loadGame_eq_ok {slot : Int32} {cursor : Operand.Cursor} {outcome : Outcome}
    {after : Machine} (hslot : m.scope.int { pos := m.cursor } = .ok slot cursor)
    (hexists : m.slotExists slot = true) (h : loadGame m = .ok outcome after) :
    outcome = .stay ∧ ∃ read, MovedOn m read ∧ loadSlot slot read = .ok () after := by
  obtain ⟨found, read, hread, h⟩ := Action.exists_of_run_eq_ok h
  have hfound : found = slot := by
    have hrun : m.scope.int.run { pos := m.cursor } = .ok slot cursor := hslot
    rw [readInt, operand, Action.get_bind, hrun] at hread
    obtain ⟨_, warned, -, hread⟩ := Action.exists_of_run_eq_ok hread
    cases hread
    rfl
  subst hfound
  have hmoved : MovedOn m read := MovedOn.operand ⟨rfl, rfl, rfl, rfl, rfl⟩ hread
  have hthere : read.slotExists found = true := (hmoved.slotExists_eq found).trans hexists
  obtain ⟨_, -, h⟩ := Action.exists_of_ofExcept_eq_ok h
  rw [if_pos hthere] at h
  obtain ⟨_, loaded, hload, h⟩ := Action.exists_of_run_eq_ok h
  cases h
  exact ⟨rfl, read, hmoved, hload⟩

/-- However a slot is loaded, the machine comes to the game that is stored there. -/
theorem comesTo_load {slot : Int32} {call : HostCall} (h : Loads slot m call) :
    ∃ save frames pc, m.Stores slot save ∧ m.framesOf save.frames = .ok frames ∧
      m.addressOf save.position = .ok pc ∧
      ComesTo m (m.play.resume save frames pc) (m.serve call).2 := by
  cases h with
  | host hanswer =>
    have hserve : m.serve (.loadSlot slot) = match loadSlot slot m with
        | .ok _ after => (.ok .done, after)
        | .error fault after => (.error (.ofFault fault), after) := by
      simp only [serve, HostCall.perform, bind, EStateM.bind, unlocated]
      cases loadSlot slot m <;> rfl
    rw [hserve] at hanswer ⊢
    cases hload : loadSlot slot m with
    | error fault after =>
      rw [hload] at hanswer
      cases hanswer
    | ok _ after => exact comesTo_loadSlot (n := m) ⟨rfl, rfl, rfl, rfl, rfl⟩ hload
  | command hcommand hslot hexists hanswer =>
    obtain ⟨settled, word, hsettled, -, rfl, hinside, hexecutes⟩ := step_executes hcommand
    have hmoved := (movedOn_settled hsettled).atCommand word
    have hcursor : (settled.atCommand word).cursor = (settled.atCommand word).pc :=
      Nat.min_eq_left hinside
    rw [← hcursor, ← hmoved.scope_eq] at hslot
    have hstep : step m = located (loadGame >>= complete) (settled.atCommand word) := hexecutes
    rw [serve_step, hstep, located] at hanswer ⊢
    cases hrun : (loadGame >>= complete) (settled.atCommand word) with
    | error fault after =>
      rw [hrun] at hanswer
      cases hanswer
    | ok event after =>
      obtain ⟨outcome, loaded, hload, hrun⟩ := Action.exists_of_run_eq_ok hrun
      have hthere : (settled.atCommand word).slotExists slot = true :=
        (hmoved.slotExists_eq slot).trans hexists
      obtain ⟨rfl, read, hread, hload⟩ := loadGame_eq_ok hslot hthere hload
      cases hrun
      exact comesTo_loadSlot (hmoved.trans hread) hload

/-! ## The game before -/

section

variable (hm : Reachable m) (hn : Reachable n) (h : SameSetup m n)

include hm hn h

/-- The variables are the same after a reset. -/
theorem SameSetup.reset_eq : n.store.reset = m.store.reset := by
  refine h.store.reset_eq hm.wellFormed hn.wellFormed ?_
  rw [hn.size_eq, hm.size_eq, h.settings]

private theorem SameSetup.cap_eq : n.nesting.cap = m.nesting.cap := by
  rw [hn.cap_eq, hm.cap_eq, h.settings]

private theorem SameSetup.labels_eq : n.labels = m.labels := by
  have hscript : n.script = m.script := congrArg Setup.script h.setup
  have hlabels : n.labels = (LabelTable.build n.script).1 := hn.inside.labels
  rw [hlabels, hscript]
  exact hm.inside.labels.symm

/-- A reset leaves only the last section of the game before. -/
theorem SameSetup.play_reset_eq (hsection : n.lastSection = m.lastSection)
    (hended : n.ended = m.ended) (start : Nat) : n.play.reset start = m.play.reset start := by
  have hreset : n.play.reset start = ⟨n.store.reset, ⟨[], n.nesting.cap⟩, start, false, false, [],
    n.lastSection, none, n.ended⟩ := rfl
  rw [hreset, h.reset_eq hm hn, h.cap_eq hm hn, hsection, hended]
  rfl

/-- A load leaves only the last section and the last tag. -/
theorem SameSetup.play_resume_eq (hsection : n.lastSection = m.lastSection)
    (htag : n.pretextTag = m.pretextTag) (save : Save) (frames : List Frame) (pc : Nat) :
    n.play.resume save frames pc = m.play.resume save frames pc := by
  have hstore : save.vars.restore n.store = save.vars.restore m.store := by
    rw [SavedVariables.restore_eq, SavedVariables.restore_eq, h.reset_eq hm hn]
  have hresume : n.play.resume save frames pc = ⟨save.vars.restore n.store,
    ⟨frames.reverse, n.nesting.cap⟩, pc, save.inText, save.narrow, n.pretextTag, n.lastSection,
    none, false⟩ := rfl
  rw [hresume, hstore, h.cap_eq hm hn, hsection, htag]
  rfl

/-- Machines with the same setup that come to the same game take the same steps. -/
theorem SameSetup.sameSteps {play : Play} {m' n' : Machine} (hm' : ComesTo m play m')
    (hn' : ComesTo n play n') (hplace : n'.atPlaceOf m' = n' ∨ ∃ addr, n'.ArrivedAt addr) :
    SameSteps m' n' := by
  refine sameSteps_of_play ?_ ?_ (hn'.play.trans hm'.play.symm) ?_ ?_ ?_ hplace
  · rw [hn'.setup, hm'.setup, h.setup]
  · rw [hn'.labels, hm'.labels, h.labels_eq hm hn]
  · rw [hn'.settings, hm'.settings, h.settings]
  · rw [hn'.saves, hm'.saves]
    exact h.saves
  · rw [hn'.saves, hm'.saves, h.refusals]

end

/-- The same game is found in a slot. -/
theorem SameSetup.stored_eq (h : SameSetup m n) {slot : Int32} {save other : Save}
    (hm : m.Stores slot save) (hn : n.Stores slot other) : other = save := by
  obtain ⟨bytes, hread, hsave⟩ := hm
  obtain ⟨bytes', hread', hsave'⟩ := hn
  have hsame : n.readSaved? (Save.fileName slot) = m.readSaved? (Save.fileName slot) :=
    readSaved?_withRecords (r := n.records) h.saves (Save.fileName_ne_marksFile slot)
  rw [hread', hread] at hsame
  cases hsame
  rw [hsave] at hsave'
  cases hsave'
  rfl

/-- **The game that was abandoned is forgotten but for a few traces.** Take two machines that can be
reached and that agree in everything that is not part of the game. If both reset the game, and have
passed the same section marker last, they take the same steps from then on. If both load the same
slot, they do so if they also agree in the last tag, and, where the saved game goes on in the middle
of text, in the place of the statement. -/
theorem abandoned_game_forgotten (hm : Reachable m) (hn : Reachable n) (h : SameSetup m n) :
    (Resets m → Resets n → n.lastSection = m.lastSection →
      SameSteps (m.serve .step).2 (n.serve .step).2) ∧
    ∀ slot call call', Loads slot m call → Loads slot n call' → n.lastSection = m.lastSection →
      n.pretextTag = m.pretextTag →
      ((m.serve call).2.inText = true →
        (n.serve call').2.statementStart = (m.serve call).2.statementStart ∧
        (n.serve call').2.statementName = (m.serve call).2.statementName) →
      SameSteps (m.serve call).2 (n.serve call').2 := by
  constructor
  · intro hresets hresets' hsection
    obtain ⟨label, hlabel, hrunning, hcome⟩ := comesTo_reset hresets
    obtain ⟨label', hlabel', hrunning', hcome'⟩ := comesTo_reset hresets'
    rw [h.labels_eq hm hn, hlabel] at hlabel'
    cases hlabel'
    have hplay := h.play_reset_eq hm hn hsection (hrunning'.trans hrunning.symm) label.start
    rw [hplay] at hcome'
    refine h.sameSteps hm hn hcome hcome' (.inr ⟨label.start, ?_⟩)
    have hgame := hcome'.play
    exact ⟨congrArg Play.pc hgame, congrArg Play.pendingHost hgame,
      (congrArg Play.ended hgame).trans hrunning, congrArg Play.inText hgame⟩
  · intro slot call call' hloads hloads' hsection htag hplace
    obtain ⟨save, frames, pc, hstores, hframes, hpc, hcome⟩ := comesTo_load hloads
    obtain ⟨other, frames', pc', hstores', hframes', hpc', hcome'⟩ := comesTo_load hloads'
    have hscript : n.script = m.script := congrArg Setup.script h.setup
    obtain rfl := h.stored_eq hstores hstores'
    rw [framesOf_congr hscript (h.labels_eq hm hn), hframes] at hframes'
    rw [addressOf_congr hscript (h.labels_eq hm hn), hpc] at hpc'
    cases hframes'
    cases hpc'
    rw [h.play_resume_eq hm hn hsection htag] at hcome'
    refine h.sameSteps hm hn hcome hcome' ?_
    have hgame := hcome.play
    have hgame' := hcome'.play
    by_cases htext : (m.serve call).2.inText = true
    · obtain ⟨hstart, hname⟩ := hplace htext
      left
      rw [atPlaceOf, ← hstart, ← hname]
    · have hsame : (n.serve call').2.inText = (m.serve call).2.inText :=
        congrArg Play.inText (hgame'.trans hgame.symm)
      refine .inr ⟨pc, congrArg Play.pc hgame', congrArg Play.pendingHost hgame',
        congrArg Play.ended hgame', ?_⟩
      rw [hsame]
      simpa using htext

/-- A script that resets the game in two places, one of them inside a call. -/
def resettingScript : Script where
  bytes := (Bytes.ofText "*start\nmov %4,1\n*a\nmov %5,7\ngosub *c\n*b\nreset\n*c\nreset\n").toArray
  encoding := .utf8

/-- A machine for a script that was driven by some calls. -/
def drivenBy (script : Script) (calls : List HostCall) : Machine :=
  ((fresh script { variableSlots := 8, globalBorder := some 4 } (.folder {})).serveAll calls).2

private theorem reachable_fresh (script : Script) :
    Reachable (fresh script { variableSlots := 8, globalBorder := some 4 } (.folder {})) :=
  .load (show load script { variableSlots := 8, globalBorder := some 4 } (.folder {}) = .ok _ from rfl)

private theorem reachable_drivenBy (script : Script) (calls : List HostCall) :
    Reachable (drivenBy script calls) :=
  (reachable_fresh script).serveAll calls

private theorem setup_drivenBy {script : Script} {calls calls' : List HostCall}
    (h : (drivenBy script calls).setup.Matches (drivenBy script calls').setup) :
    (drivenBy script calls').setup = (drivenBy script calls).setup := by
  obtain ⟨hsource, htable⟩ := (reachable_fresh script).given_serveAll calls
  obtain ⟨hsource', htable'⟩ := (reachable_fresh script).given_serveAll calls'
  exact h.eq (hsource'.trans hsource.symm) (htable'.trans htable.symm)

private theorem saves_drivenBy {script : Script} {calls calls' : List HostCall}
    (h : (drivenBy script calls).saves.files? = (drivenBy script calls').saves.files?) :
    (drivenBy script calls).saves = (drivenBy script calls').saves :=
  -- The system refuses nothing to either, so that the files decide.
  SaveArea.eq_of_open (open_serveAll (fun _ _ => rfl) _) (open_serveAll (fun _ _ => rfl) _) h

/-- Before the reset inside the call, with a local variable written. -/
def insideCall : Machine :=
  drivenBy resettingScript ([.saveSlot 1 0 none, .startAt "a"] ++ List.replicate 7 .step)

/-- Before the other reset. -/
def outsideCall : Machine :=
  drivenBy resettingScript [.saveSlot 1 0 none, .startAt "b", .step, .step]

/-- The two have nothing in common but what is not part of the game. -/
theorem sameSetup_insideCall :
    SameSetup insideCall outsideCall ∧ insideCall.nesting ≠ outsideCall.nesting := by
  have hsetup : outsideCall.setup = insideCall.setup := setup_drivenBy (by decide +kernel)
  have hsaves : insideCall.saves = outsideCall.saves := saves_drivenBy (by decide +kernel)
  have hparts : (outsideCall.settings = insideCall.settings ∧
      insideCall.store = outsideCall.store.setInt 5 7) ∧
      outsideCall.store.border ≤ 5 ∧ insideCall.nesting ≠ outsideCall.nesting := by
    decide +kernel
  obtain ⟨⟨hsettings, hstore⟩, hlocal, hcalls⟩ := hparts
  refine ⟨⟨hsetup, hsettings, ?_, ?_, ?_⟩, hcalls⟩
  · rw [hsaves]
    exact .refl _
  · rw [hsaves]
  · rw [hstore]
    exact Store.sameGlobals_setInt hlocal 7

/-- Whether the game is reset inside the call or outside of it, and whether a slot is loaded here or
there, what follows is the same. -/
theorem abandoned_game_forgotten_insideCall :
    Reachable insideCall ∧ Reachable outsideCall ∧ SameSetup insideCall outsideCall ∧
      insideCall.nesting ≠ outsideCall.nesting ∧ Resets insideCall ∧ Resets outsideCall ∧
      SameSteps (insideCall.serve .step).2 (outsideCall.serve .step).2 ∧
      Loads 1 insideCall (.loadSlot 1) ∧ Loads 1 outsideCall (.loadSlot 1) ∧
      SameSteps (insideCall.serve (.loadSlot 1)).2 (outsideCall.serve (.loadSlot 1)).2 := by
  have hresets : insideCall.upcoming? = some (.reset, 54) ∧
      outsideCall.upcoming? = some (.reset, 45) ∧
      (insideCall.serve .step).1 = .ok (.event .restarted) ∧
      (outsideCall.serve .step).1 = .ok (.event .restarted) := by
    decide +kernel
  have hloads : (insideCall.serve (.loadSlot 1)).1 = .ok .done ∧
      (outsideCall.serve (.loadSlot 1)).1 = .ok .done ∧
      (insideCall.serve (.loadSlot 1)).2.inText = false := by
    decide +kernel
  have htraces : outsideCall.lastSection = insideCall.lastSection ∧
      outsideCall.pretextTag = insideCall.pretextTag := by
    decide +kernel
  have hreachable : Reachable insideCall := reachable_drivenBy _ _
  have hreachable' : Reachable outsideCall := reachable_drivenBy _ _
  obtain ⟨hreset, hload⟩ :=
    abandoned_game_forgotten hreachable hreachable' sameSetup_insideCall.1
  have hinside : Resets insideCall := ⟨⟨54, hresets.1⟩, hresets.2.2.1⟩
  have houtside : Resets outsideCall := ⟨⟨45, hresets.2.1⟩, hresets.2.2.2⟩
  refine ⟨hreachable, hreachable', sameSetup_insideCall.1, sameSetup_insideCall.2, hinside,
    houtside, hreset hinside houtside htraces.1, .host hloads.1, .host hloads.2.1, ?_⟩
  refine hload 1 _ _ (.host hloads.1) (.host hloads.2.1) htraces.1 htraces.2 fun htext => ?_
  exact absurd (hloads.2.2.symm.trans htext) Bool.false_ne_true

/-- A script that goes back to the last section as soon as it is started. -/
def sectionScript : Script where
  bytes := (Bytes.ofText "*start\njumpb\n*a\n~\nreset\n*b\nreset\n").toArray
  encoding := .utf8

/-- Before a reset, where no section marker was passed. -/
def beforeSections : Machine :=
  drivenBy sectionScript [.startAt "b", .step, .step]

/-- Before a reset, after a section marker. -/
def afterSection : Machine :=
  drivenBy sectionScript [.startAt "a", .step, .step, .step, .step]

/-- The section marker outlives the reset: one machine goes back to it, and the other one finds
none. -/
theorem section_outlives_reset_sectionScript :
    let first := (beforeSections.serve .step).2
    let second := (afterSection.serve .step).2
    Reachable beforeSections ∧ Reachable afterSection ∧ SameSetup beforeSections afterSection ∧
      afterSection.marks = beforeSections.marks ∧ Resets beforeSections ∧ Resets afterSection ∧
      (first.serveAll [.step, .step, .step]).1.getLast? =
        some (.error { fault := .noSectionBehind, location := some ⟨"start", 1, some "jumpb"⟩ }) ∧
      (second.serveAll [.step, .step, .step]).1.getLast? = some (.ok (.event .continued)) ∧
      ¬ SameSteps first second := by
  intro first second
  have hsetup : afterSection.setup = beforeSections.setup := setup_drivenBy (by decide +kernel)
  have hsaves : beforeSections.saves = afterSection.saves := saves_drivenBy (by decide +kernel)
  have hparts : (afterSection.settings = beforeSections.settings ∧
      beforeSections.store = afterSection.store) ∧
      afterSection.marks = beforeSections.marks := by
    decide +kernel
  have hresets : beforeSections.upcoming? = some (.reset, 32) ∧
      afterSection.upcoming? = some (.reset, 23) ∧
      (beforeSections.serve .step).1 = .ok (.event .restarted) ∧
      (afterSection.serve .step).1 = .ok (.event .restarted) := by
    decide +kernel
  have hanswers : (first.serveAll [.step, .step, .step]).1.getLast? =
        some (.error { fault := .noSectionBehind, location := some ⟨"start", 1, some "jumpb"⟩ }) ∧
      (second.serveAll [.step, .step, .step]).1.getLast? = some (.ok (.event .continued)) := by
    decide +kernel
  obtain ⟨⟨hsettings, hstore⟩, hmarks⟩ := hparts
  refine ⟨reachable_drivenBy _ _, reachable_drivenBy _ _, ⟨hsetup, hsettings, ?_, ?_, ?_⟩, hmarks,
    ⟨⟨32, hresets.1⟩, hresets.2.2.1⟩, ⟨⟨23, hresets.2.1⟩, hresets.2.2.2⟩, hanswers.1, hanswers.2,
    ?_⟩
  · rw [hsaves]
    exact .refl _
  · rw [hsaves]
  · rw [hstore]
    exact ⟨rfl, fun _ _ => rfl, fun _ => rfl⟩
  · intro hsame
    have hlast := congrArg List.getLast? (hsame 3).1
    rw [show List.replicate 3 HostCall.step = [.step, .step, .step] from rfl, List.getLast?_map,
      List.getLast?_map, hanswers.1, hanswers.2] at hlast
    cases hlast

end Machine

end NovelScript
