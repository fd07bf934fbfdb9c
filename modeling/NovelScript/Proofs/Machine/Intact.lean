import NovelScript.Proofs.Machine.Commands
import NovelScript.Proofs.Script.Boundary
import NovelScript.Proofs.Store.Texts

/-!
# Machines that cut no character

In a script that is UTF-8 text, a machine moves from one place where a character begins to another
one, and whatever it cuts out of the script, takes apart or joins is a text again. One lemma for
each action says that it keeps this, along the way the actions are put together, and what strings
and events it gives. Only a saved game can break it: its positions count bytes, and its strings are
any bytes.
-/

namespace NovelScript

open NovelScript.Action (Keeps Gives)
open NovelScript.Bytes (IsText isText_nil isText_of_ascii)

/-- The event delivers no text, or one that is UTF-8. -/
def Event.Readable : Event → Prop
  | text run => IsText run.text
  | continued | hostCommand _ | restarted | ended => True

namespace Machine

variable {α : Type} {script : Script} {m : Machine}

/-- The machine runs a script that is UTF-8 text, all its addresses are places where a character
begins, and all strings that it keeps are texts. -/
structure Intact (script : Script) (m : Machine) : Prop where
  /-- The script is UTF-8 text. -/
  legible : script.Legible
  /-- It is the one that the machine runs. -/
  script_eq : m.script = script
  /-- The labels are those of the script. -/
  labels : m.labels = (LabelTable.build script).1
  /-- A character begins at the next byte. -/
  pc : script.Boundary m.pc
  /-- And at the current statement. -/
  statementStart : script.Boundary m.statementStart
  /-- And at the last section. -/
  lastSection : ∀ addr ∈ m.lastSection, script.Boundary addr
  /-- And at every address that a frame holds. -/
  frames : ∀ frame ∈ m.nesting.frames, ∀ addr ∈ frame.addresses, script.Boundary addr
  /-- The variables hold texts. -/
  store : m.store.Clean
  /-- So do the aliases. -/
  aliases : ∀ entry ∈ m.aliases.strings, IsText entry.2
  /-- The last tag is a text. -/
  tag : IsText m.pretextTag
  /-- So is every click marker. -/
  markers : ∀ marker ∈ m.style.clickMarkers, IsText marker

namespace Intact

section Places

variable (hm : Intact script m)
include hm

/-- The scans of an intact script go from boundary to boundary. -/
theorem scans : script.Scans script.Boundary :=
  Script.scans_boundary hm.legible

private theorem cursor : script.Boundary m.cursor := by
  rw [Machine.cursor, hm.script_eq, Nat.min_eq_left hm.pc.le]
  exact hm.pc

/-- A statement ends at a boundary. -/
theorem statementEnd {addr : Nat} (haddr : script.Boundary addr) :
    script.Boundary (m.statementEnd addr) := by
  rw [Machine.statementEnd, hm.script_eq, Nat.min_eq_left haddr.le]
  exact hm.scans.skipStatement haddr

private theorem label {name : String} {label : Label} (h : m.labels.byName name = .ok label) :
    script.Boundary label.start := by
  rw [hm.labels] at h
  exact Script.boundary_label hm.legible h

private theorem isText_alias {name : String} {value : Bytes}
    (h : m.aliases.string? name = some value) : IsText value :=
  hm.aliases _ (Table.mem_of_get? h)

/-- Operands are read from boundary to boundary, and strings are texts. -/
theorem admits_scope : m.scope.Admits script.Boundary IsText where
  scans := by
    rw [scope, hm.script_eq]
    exact hm.scans.line false
  slice := by
    rw [scope, hm.script_eq]
    exact Script.isText_slice
  str := hm.store.texts
  aliases := hm.isText_alias
  append := IsText.append

/-- So is text. -/
theorem admits_setup :
    TextReader.Setup.Admits { script := m.script, aliases := m.aliases, style := m.style }
      false script.Boundary IsText Store.Clean where
  scans := by
    rw [hm.script_eq]
    exact hm.scans.line false
  slice := by
    rw [hm.script_eq]
    exact Script.isText_slice
  aliases := hm.isText_alias
  number value wide pad := by
    rw [hm.script_eq, hm.legible.encoding]
    exact Encoding.isText_formatNumber value wide pad
  append := IsText.append
  str := Store.Clean.texts
  write hstore _ hvalue hwrite := hstore.write hvalue hwrite

private theorem carries_setup :
    TextReader.Setup.Carries { script := m.script, aliases := m.aliases, style := m.style }
      (fun _ => script.Boundary) IsText Store.Clean :=
  TextReader.Setup.carries_of_scans (hm.script_eq ▸ hm.scans) hm.admits_setup

end Places

/-! ## Small actions -/

/-- A warning touches nothing that could be cut. -/
theorem keeps_warn (warning : Warning) : Keeps (Intact script) (warn warning) :=
  keeps_warn_of (fun _ _ _ hm => { hm with }) warning

/-- Neither do several warnings. -/
theorem keeps_warnAll (warnings : List Warning) : Keeps (Intact script) (warnAll warnings) :=
  keeps_warnAll_of (fun _ _ _ hm => { hm with }) warnings

/-- Going on at a boundary keeps everything whole. -/
theorem keeps_moveTo {addr : Nat} (h : script.Boundary addr) :
    Keeps (Intact script) (moveTo addr) :=
  .modify fun _ hm => { hm with pc := h }

/-- Labels are at boundaries, so that a jump goes to one. -/
theorem keeps_jumpTo (name : String) : Keeps (Intact script) (jumpTo name) := by
  refine .get fun m hm => .ofExcept_bind fun label hlabel => ?_
  exact .modify fun _ hm' => { hm' with pc := hm.label hlabel }

private theorem keeps_resumeText {bookmark : Bookmark} (h : script.Boundary bookmark.addr) :
    Keeps (Intact script) (resumeText bookmark) :=
  .modify fun _ hm => { hm with pc := h }

/-- Marks are no text. -/
theorem keeps_markRead (addr : Nat) : Keeps (Intact script) (markRead addr) :=
  keeps_markRead_of (fun _ _ hm => { hm with }) addr

/-- A frame may be opened if its addresses are boundaries. -/
theorem keeps_pushFrame {frame : Frame} (h : ∀ addr ∈ frame.addresses, script.Boundary addr) :
    Keeps (Intact script) (pushFrame frame) := by
  refine .look fun m hm => Keeps.ofExcept_andThen hm fun nesting hpush => ?_
  obtain rfl := push_eq_ok hpush
  exact { hm with frames := List.forall_mem_cons.mpr ⟨h, hm.frames⟩ }

private theorem keeps_updateStore {f : Store → Except Fault Store}
    (hf : ∀ {store next}, store.Clean → f store = .ok next → next.Clean) :
    Keeps (Intact script) (updateStore f) := by
  refine .look fun m hm => Keeps.ofExcept_andThen hm fun store hstore => ?_
  exact { hm with store := hf hm.store hstore }

/-! ## Operands -/

private theorem gives_operand {read : Operand.Scope → Operand.Reader α} {T : α → Prop}
    (hread : ∀ scope : Operand.Scope, scope.Admits script.Boundary IsText →
      Gives (Operand.At script.Boundary) T (read scope)) :
    Gives (Intact script) T (operand read) := by
  refine .get fun m hm => ?_
  split
  · next value after hrun =>
    obtain ⟨hafter, hvalue⟩ :=
      Operand.of_run_eq_ok (hread m.scope hm.admits_scope) hm.cursor hrun
    rw [hm.script_eq]
    have hcomma := hm.scans.eat (b := Byte.comma) (by decide) (hm.scans.skipBlanks hafter)
    refine .andThen (keeps_warnAll _) fun _ => ?_
    exact .andThen (keeps_moveTo (hm.scans.skipBlanks hcomma)) fun _ => .pure hvalue
  · exact .andThen (keeps_warnAll _) fun _ => .throw _

private theorem keeps_operand {read : Operand.Scope → Operand.Reader α}
    (hread : ∀ scope : Operand.Scope, scope.Admits script.Boundary IsText →
      Keeps (Operand.At script.Boundary) (read scope)) :
    Keeps (Intact script) (operand read) :=
  (gives_operand fun scope hscope => .ofKeeps (hread scope hscope)).keeps

/-- Reading an integer expression goes from boundary to boundary. -/
theorem keeps_readInt : Keeps (Intact script) readInt :=
  keeps_operand fun _ hscope => hscope.keeps_int

/-- Reading a string expression does so, too, and gives whole text. -/
theorem gives_readStr : Gives (Intact script) IsText readStr :=
  gives_operand fun _ hscope => hscope.gives_str

/-- Reading a label goes from boundary to boundary. -/
theorem keeps_readLabel : Keeps (Intact script) readLabel :=
  keeps_operand fun _ hscope => hscope.keeps_label

/-- So does reading a reference to a variable. -/
theorem keeps_readVarRef : Keeps (Intact script) readVarRef :=
  keeps_operand fun _ hscope => hscope.keeps_varRef

private theorem keeps_readName : Keeps (Intact script) readName :=
  keeps_operand fun _ hscope => hscope.keeps_name

private theorem keeps_readIntTarget : Keeps (Intact script) readIntTarget :=
  .bind keeps_readVarRef fun _ => .guard fun _ => .pure _

private theorem keeps_readStrTarget : Keeps (Intact script) readStrTarget := by
  refine .bind keeps_readVarRef fun target => ?_
  cases target with
  | str n => exact .pure _
  | int n | array no indices => exact .throw _

/-- So does looking for a keyword. -/
theorem keeps_eatKeyword (word : String) : Keeps (Intact script) (eatKeyword word) := by
  refine .get fun m hm => ?_
  split
  · next after hword =>
    obtain rfl := hm.script_eq
    obtain ⟨hat, hafter⟩ := Option.ite_none_right_eq_some.mp hword
    cases hafter
    have hnext := Script.boundary_startsWithWord hm.legible ⟨word, rfl⟩
      (hm.scans.skipBlanks hm.cursor) (Bool.and_eq_true_iff.mp hat).1
    exact .bind (keeps_moveTo (hm.scans.skipBlanks hnext)) fun _ => .pure _
  · exact .pure _

/-- So does looking for a token that is whole text. -/
theorem keeps_eatToken {token : Bytes} (htoken : token.IsText) :
    Keeps (Intact script) (eatToken token) := by
  refine .get fun m hm => .ite (fun hat => ?_) fun _ => .pure _
  obtain rfl := hm.script_eq
  have hnext := Script.boundary_startsWithWord hm.legible htoken
    (hm.scans.skipBlanks hm.cursor) (Script.startsWithWord_of_startsWith hat)
  exact .bind (keeps_moveTo (hm.scans.skipBlanks hnext)) fun _ => .pure _

private theorem keeps_expectToken (token : String) : Keeps (Intact script) (expectToken token) :=
  .bind (keeps_eatToken ⟨token, rfl⟩) fun _ => .ite (fun _ => .pure _) fun _ => .throw _

/-- What is done at another address comes to a boundary, too. -/
theorem gives_atAddress {addr : Nat} (haddr : script.Boundary addr) {action : Run α}
    (haction : Keeps (Intact script) action) :
    Gives (Intact script) (fun reading => script.Boundary reading.2) (atAddress addr action) := by
  intro m hm
  have hstart : Intact script { m with pc := addr } := { hm with pc := haddr }
  have hafter := haction hstart
  cases hrun : action { m with pc := addr } with
  | ok a after =>
    rw [Action.after_of_ok hrun] at hafter
    rw [atAddress_of_ok hrun]
    exact ⟨{ hafter with pc := hm.pc }, hafter.pc⟩
  | error fault after =>
    rw [Action.after_of_error hrun] at hafter
    rw [atAddress_of_error hrun]
    exact { hafter with pc := hm.pc }

/-! ## Commands on variables -/

private theorem keeps_writeInt (target : VariableRef) (value : Int32) :
    Keeps (Intact script) (writeInt target value) :=
  keeps_updateStore fun hstore h => hstore.writeInt h

private theorem keeps_writeStr (target : VariableRef) {value : Bytes} (hvalue : IsText value) :
    Keeps (Intact script) (writeStr target value) :=
  keeps_updateStore fun hstore h => hstore.writeStr hvalue h

private theorem keeps_setStr (n : Nat) {value : Bytes} (hvalue : IsText value) :
    Keeps (Intact script) (setStr n value) :=
  .modify fun _ hm => { hm with store := hm.store.setStr hvalue }

private theorem keeps_valueOf (target : VariableRef) : Keeps (Intact script) (valueOf target) :=
  .get fun _ _ => .ofExcept

private theorem keeps_assign : Keeps (Intact script) assign := by
  refine .bind keeps_readVarRef fun target => ?_
  refine .bind (keeps_eatToken (isText_of_ascii (by decide))).discard fun _ => ?_
  refine .ite (fun _ => ?_) fun _ => .get fun m _ => .ite (fun _ => .fail) fun _ => ?_
  · refine .bindGives gives_readStr fun value hvalue => ?_
    exact .bind (keeps_writeStr _ hvalue) fun _ => .pure _
  · exact .bind keeps_readInt fun value => .bind (keeps_writeInt _ _) fun _ => .pure _

private theorem keeps_arithmetic (op : Operator) : Keeps (Intact script) (arithmetic op) := by
  have hint : ∀ target : VariableRef, Keeps (Intact script) (do
      let rhs ← readInt
      let lhs ← valueOf target
      let value ← Action.ofExcept (op.apply lhs rhs)
      writeInt target value
      return Outcome.advance) := by
    intro target
    refine .bind keeps_readInt fun rhs => .bind (keeps_valueOf _) fun lhs => ?_
    exact .ofExcept_bind fun value _ => .bind (keeps_writeInt _ _) fun _ => .pure _
  refine .bind keeps_readVarRef fun target => ?_
  cases target with
  | str n =>
    refine .guard fun _ => .get fun m hm => .bindGives gives_readStr fun value hvalue => ?_
    exact .bind (keeps_setStr _ ((hm.store.texts n).append hvalue)) fun _ => .pure _
  | int n => exact hint _
  | array no indices => exact hint _

private theorem keeps_increase (amount : Int32) : Keeps (Intact script) (increase amount) := by
  refine .bind keeps_readIntTarget fun target => .bind (keeps_valueOf _) fun value => ?_
  exact .bind (keeps_writeInt _ _) fun _ => .pure _

private theorem keeps_compareStrings : Keeps (Intact script) compareStrings := by
  refine .bind keeps_readIntTarget fun target => .bind gives_readStr.keeps fun a => ?_
  exact .bind gives_readStr.keeps fun b => .bind (keeps_writeInt _ _) fun _ => .pure _

private theorem keeps_integerToString : Keeps (Intact script) integerToString := by
  refine .bind keeps_readStrTarget fun n => .bind keeps_readInt fun value => ?_
  exact .bind (keeps_setStr _ (Decimal.isText_ofInt value)) fun _ => .pure _

private theorem keeps_stringToInteger : Keeps (Intact script) stringToInteger := by
  refine .bind keeps_readIntTarget fun target => .bind gives_readStr.keeps fun text => ?_
  exact .bind (keeps_writeInt _ _) fun _ => .pure _

private theorem keeps_stringLength : Keeps (Intact script) stringLength := by
  refine .bind keeps_readIntTarget fun target => .bind gives_readStr.keeps fun text => ?_
  exact .bind (keeps_writeInt _ _) fun _ => .pure _

/-- What is cut out of a string is counted in characters. -/
theorem keeps_substring : Keeps (Intact script) substring := by
  refine .bind keeps_readStrTarget fun n => .bindGives gives_readStr fun text htext => ?_
  refine .bind keeps_readInt fun start => .bind keeps_readInt fun count => .get fun m hm => ?_
  have hslice : IsText (m.script.encoding.charSlice text start.toInt.toNat count.toInt.toNat) := by
    rw [hm.script_eq, hm.legible.encoding]
    exact Encoding.isText_charSlice htext _ _
  exact .bind (keeps_setStr _ hslice) fun _ => .pure _

private theorem withChance (hm : Intact script m) (chance : Chance) :
    Intact script { m with chance } :=
  { hm with }

private theorem keeps_randomBelow : Keeps (Intact script) randomBelow := by
  refine .bind keeps_readIntTarget fun target => .bind keeps_readInt fun upper => ?_
  refine .get fun m _ => .bind (.modify fun _ hm => hm.withChance _) fun _ => ?_
  exact .bind (keeps_writeInt _ _) fun _ => .pure _

private theorem keeps_randomBetween : Keeps (Intact script) randomBetween := by
  refine .bind keeps_readIntTarget fun target => .bind keeps_readInt fun lower => ?_
  refine .bind keeps_readInt fun upper => ?_
  refine .get fun m _ => .bind (.modify fun _ hm => hm.withChance _) fun _ => ?_
  exact .bind (keeps_writeInt _ _) fun _ => .pure _

private theorem keeps_limitVariable : Keeps (Intact script) limitVariable := by
  refine .bind (keeps_eatToken (isText_of_ascii (by decide))).discard fun _ => ?_
  refine .bind keeps_readInt fun n => .bind keeps_readInt fun lower => ?_
  refine .bind keeps_readInt fun upper => .ofExcept_bind fun slot _ => ?_
  exact .bind (keeps_updateStore fun hstore h => hstore.setLimit h) fun _ => .pure _

private theorem keeps_declareArray : Keeps (Intact script) declareArray := by
  refine .bind keeps_readVarRef fun target => ?_
  cases target with
  | array no dims =>
    exact .bind (keeps_updateStore fun hstore h => hstore.declare h) fun _ => .pure _
  | int n | str n => exact .fail

private theorem keeps_note (notices : List Notice) : Keeps (Intact script) (note notices) :=
  .modify fun _ hm => { hm with }

private theorem keeps_nameNumber : Keeps (Intact script) nameNumber := by
  refine .bind keeps_readName fun name => .bind keeps_readInt fun value => .get fun m hm => ?_
  have haliases : ∀ entry ∈ (m.aliases.addNumber name value).1.strings, IsText entry.2 := by
    rw [Aliases.addNumber]
    split
    · exact hm.aliases
    · exact hm.aliases
  refine .bind (.modify fun _ hm => { hm with aliases := haliases }) fun _ => ?_
  exact .bind (keeps_note _) fun _ => .pure _

private theorem keeps_nameString : Keeps (Intact script) nameString := by
  refine .bind keeps_readName fun name => .bindGives gives_readStr fun value hvalue => ?_
  refine .get fun m hm => ?_
  have haliases : ∀ entry ∈ (m.aliases.addString name value).1.strings, IsText entry.2 := by
    rw [Aliases.addString]
    split
    · exact hm.aliases
    · exact List.forall_mem_append.mpr ⟨hm.aliases, by simpa using hvalue⟩
  refine .bind (.modify fun _ hm => { hm with aliases := haliases }) fun _ => ?_
  exact .bind (keeps_note _) fun _ => .pure _

/-! ## Control flow -/

private theorem keeps_gotoLabel : Keeps (Intact script) gotoLabel :=
  .bind keeps_readLabel fun _ => .bind (keeps_jumpTo _) fun _ => .pure _

private theorem keeps_callLabel (label : String) : Keeps (Intact script) (callLabel label) := by
  refine .get fun m hm => .bind (keeps_pushFrame ?_) fun _ => ?_
  · simpa [Frame.addresses] using hm.statementEnd hm.pc
  · exact .bind (keeps_jumpTo _) fun _ => .pure _

private theorem keeps_gosub : Keeps (Intact script) gosub :=
  .bind keeps_readLabel fun _ => keeps_callLabel _

/-- Closing frames leaves no other addresses. -/
theorem close (hm : Intact script m) {frames : List Frame} (h : frames <:+ m.nesting.frames) :
    Intact script { m with nesting := { m.nesting with frames } } :=
  { hm with frames := fun frame hframe => hm.frames frame (h.subset hframe) }

private theorem keeps_leaveCall {frame : CallFrame}
    (h : ∀ addr ∈ (Frame.call frame).addresses, script.Boundary addr) :
    Keeps (Intact script) (leaveCall frame) := by
  obtain ⟨kind, returnTo, params, bookmark⟩ := frame
  have hplain : Keeps (Intact script)
      (modify fun m => { m with pc := returnTo, inText := false } : Run Unit) :=
    .modify fun _ hm => { hm with pc := h _ (by simp [Frame.addresses]) }
  cases bookmark with
  | none => cases kind <;> exact hplain
  | some bookmark =>
    have hresume : Keeps (Intact script) (resumeText bookmark) :=
      keeps_resumeText (h _ (by simp [Frame.addresses]))
    cases kind with
    | gosub | subroutine => exact hplain
    | textGosub | pretext => exact hresume
    | rgosub =>
      refine .bind (.modify fun m hm => ?_) fun _ => hresume
      obtain ⟨frames, hsuffix, heq⟩ := unwindHandler_suffix m.nesting
      rw [heq]
      exact hm.close hsuffix

private theorem keeps_returnFromCall : Keeps (Intact script) returnFromCall := by
  refine .get fun m _ => .join (.map _ keeps_readLabel) (.pure _) fun target => ?_
  refine .look fun m hm => Keeps.ofExcept_andThen hm fun popped hpop => ?_
  obtain ⟨frame, rest⟩ := popped
  obtain ⟨hframes, hrest⟩ := popCall_eq_ok hpop
  have hframe := hm.frames _ (hframes ▸ List.mem_cons_self)
  have hsuffix : rest.frames <:+ m.nesting.frames := hframes ▸ List.suffix_cons _ _
  have hclosed := hm.close hsuffix
  rw [← hrest] at hclosed
  refine Keeps.andThen hclosed fun _ => ?_
  cases target with
  | some label => exact .bind (keeps_jumpTo _) fun _ => .pure _
  | none => exact .bind (keeps_leaveCall hframe) fun _ => .pure _

/-- A call that interrupts text holds the place in the text. -/
theorem boundary_ofBookmark {kind : CallKind} {bookmark : Bookmark}
    (h : script.Boundary bookmark.addr) :
    ∀ addr ∈ (Frame.call (.ofBookmark kind bookmark)).addresses, script.Boundary addr := by
  simpa [Frame.addresses, CallFrame.ofBookmark] using h

private theorem keeps_handlerGosub : Keeps (Intact script) handlerGosub := by
  refine .bind keeps_readLabel fun label => .get fun m hm => ?_
  cases hbookmark : m.nesting.bookmark? with
  | some bookmark =>
    obtain ⟨call, hcall, hmark⟩ := Nesting.exists_of_bookmark? hbookmark
    have haddr := hm.frames _ hcall bookmark.addr (by simp [Frame.addresses, hmark])
    refine .bind (keeps_pushFrame (boundary_ofBookmark haddr)) fun _ => ?_
    exact .bind (keeps_jumpTo _) fun _ => .pure _
  | none => exact .bind (keeps_warn _) fun _ => keeps_callLabel _

private theorem keeps_openLoop : Keeps (Intact script) openLoop := by
  refine .bind keeps_readIntTarget fun counter => ?_
  refine .bind (keeps_expectToken _) fun _ => .bind keeps_readInt fun start => ?_
  refine .bind (keeps_eatKeyword _) fun found => .doUnless (.throw _) ?_
  refine .bind keeps_readInt fun bound => .bind (keeps_eatKeyword _) fun stepped => ?_
  refine .join keeps_readInt (.pure _) fun step => .guard fun _ => ?_
  refine .bind (keeps_writeInt _ _) fun _ => .bind (keeps_valueOf _) fun value => ?_
  refine .get fun m hm => ?_
  have hbody := hm.statementEnd hm.pc
  refine .ite (fun _ => .ofExcept_bind fun found hfound => ?_) fun _ => ?_
  · rw [hm.script_eq] at hfound
    obtain ⟨hstart, -⟩ := Script.boundary_loopEnd hm.legible hbody hfound
    refine .bind (keeps_pushFrame (by simpa [Frame.addresses] using hbody)) fun _ => ?_
    exact .bind (keeps_moveTo hstart) fun _ => .pure _
  · exact .bind (keeps_pushFrame (by simpa [Frame.addresses] using hbody)) fun _ => .pure _

private theorem keeps_closeLoop : Keeps (Intact script) closeLoop := by
  refine .look fun m hm => Keeps.ofExcept_andThen hm fun popped hpop => ?_
  obtain ⟨frame, nesting⟩ := popped
  obtain ⟨frames, hsuffix, rfl⟩ := popLoop_eq_ok hpop
  exact hm.close hsuffix

private theorem keeps_loopAgain : Keeps (Intact script) loopAgain := by
  refine .get fun m hm => .ofExcept_bind fun frame hframe => ?_
  have hbody := hm.frames _ (topLoop_mem hframe) frame.body (by simp [Frame.addresses])
  refine .ite (fun _ => .bind keeps_closeLoop fun _ => .pure _) fun _ => ?_
  refine .bind (keeps_valueOf _) fun value => .bind (keeps_writeInt _ _) fun _ => ?_
  refine .bind (keeps_valueOf _) fun reached => ?_
  refine .ite (fun _ => .bind keeps_closeLoop fun _ => .pure _) fun _ => ?_
  exact .bind (keeps_moveTo hbody) fun _ => .pure _

private theorem keeps_breakLoop : Keeps (Intact script) breakLoop := by
  refine .look fun m hm => Keeps.choose (fun _ => ?_) fun _ => ?_
  · refine Keeps.bind keeps_readLabel (fun label => .get fun m _ => ?_) hm
    refine .join keeps_closeLoop (keeps_warn _) fun _ => ?_
    exact .bind (keeps_jumpTo _) fun _ => .pure _
  · refine Keeps.ofExcept_andThen hm fun found hfound => ?_
    rw [hm.script_eq] at hfound
    obtain ⟨hstart, hafter⟩ :=
      Script.boundary_loopEnd hm.legible (hm.statementEnd hm.pc) hfound
    refine Keeps.choose (fun _ => ?_) fun _ => ?_
    · refine Keeps.ofExcept_andThen hm fun nesting hfinish => ?_
      obtain ⟨loop, rest, hframes, rfl⟩ := Nesting.finishLoop_eq_ok hfinish
      have hheld := hm.frames
      rw [hframes] at hheld
      obtain ⟨hloop, hrest⟩ := List.forall_mem_cons.mp hheld
      have hfinished : Intact script { m with nesting :=
          { m.nesting with frames := .loop { loop with finished := true } :: rest } } :=
        { hm with frames := List.forall_mem_cons.mpr ⟨hloop, hrest⟩ }
      refine Keeps.andThen hfinished fun _ => ?_
      exact .bind (keeps_moveTo hstart) fun _ => .pure _
    · refine Keeps.bind (keeps_warn _) (fun _ => ?_) hm
      exact .bind (keeps_moveTo hafter) fun _ => .pure _

private theorem keeps_readComparisonOf {tokens : List (Bytes × Comparison)}
    (h : ∀ entry ∈ tokens, IsText entry.1) : Keeps (Intact script) (readComparisonOf tokens) := by
  induction tokens with
  | nil => exact .pure _
  | cons entry tokens ih =>
    obtain ⟨hentry, hrest⟩ := List.forall_mem_cons.mp h
    exact .bind (keeps_eatToken hentry) fun _ => .ite (fun _ => .pure _) fun _ => ih hrest

private theorem keeps_readComparison : Keeps (Intact script) readComparison := by
  have hascii : ∀ entry ∈ Comparison.tokens, entry.1.IsAscii := by decide
  exact keeps_readComparisonOf fun entry hentry => isText_of_ascii (hascii entry hentry)

private theorem keeps_conditionTerm : Keeps (Intact script) conditionTerm := by
  refine .bind (keeps_eatKeyword _) fun files => .ite (fun _ => ?_) fun _ => ?_
  · exact .bind gives_readStr.keeps fun name => .get fun m _ => .pure _
  refine .bind (keeps_eatKeyword _) fun labels => .ite (fun _ => ?_) fun _ => ?_
  · exact .bind keeps_readLabel fun label => .get fun m _ => .pure _
  refine .get fun m _ => .ite (fun _ => ?_) fun _ => ?_
  · refine .bind gives_readStr.keeps fun lhs => .bind keeps_readComparison fun comparison => ?_
    cases comparison with
    | none => exact .throw _
    | some comparison => exact .bind gives_readStr.keeps fun rhs => .pure _
  · refine .bind keeps_readInt fun lhs => .bind keeps_readComparison fun comparison => ?_
    cases comparison with
    | none => exact .pure _
    | some comparison => exact .bind keeps_readInt fun rhs => .pure _

private theorem keeps_conditionTail (terms : Nat) (result : Bool) :
    Keeps (Intact script) (conditionTail terms result) := by
  have htoken {token : Bytes} (h : token.IsAscii) : Keeps (Intact script) (eatToken token) :=
    keeps_eatToken (isText_of_ascii h)
  induction terms generalizing result with
  | zero => exact .pure _
  | succ terms ih =>
    refine .bind (htoken (by decide)) fun double => ?_
    refine .join (.pure _) (htoken (by decide)) fun joined => ?_
    exact .ite (fun _ => .bind keeps_conditionTerm fun term => ih _) fun _ => .pure _

private theorem keeps_conditional (expected : Bool) :
    Keeps (Intact script) (conditional expected) := by
  refine .bind keeps_conditionTerm fun holds => .get fun m _ => ?_
  exact .bind (keeps_conditionTail _ _) fun result => .ite (fun _ => .pure _) fun _ => .pure _

private theorem keeps_jumpForward : Keeps (Intact script) jumpForward := by
  refine .get fun m hm => ?_
  split
  · exact .throw _
  · next target htarget =>
    rw [hm.script_eq] at htarget
    have hplace := hm.scans.sectionAfter? htarget hm.cursor
    have hpassed : Intact script { m with lastSection := some target, pc := target } :=
      { hm with pc := hplace, lastSection := by simpa using hplace }
    exact .bind (.set hpassed) fun _ => .pure _

private theorem keeps_jumpBackward : Keeps (Intact script) jumpBackward := by
  refine .get fun m hm => ?_
  split
  · exact .throw _
  · next target htarget =>
    exact .bind (keeps_moveTo (hm.lastSection target htarget)) fun _ => .pure _

private theorem keeps_skipLines : Keeps (Intact script) skipLines := by
  refine .bind keeps_readInt fun n => .get fun m hm => ?_
  obtain rfl := hm.script_eq
  have hline := Script.boundary_lineStart hm.legible m.pc
  refine .ite (fun _ => ?_) fun _ => ?_
  · exact .bind (keeps_moveTo (Script.boundary_linesDown hm.legible hline)) fun _ => .pure _
  · split
    · exact .fail
    · next target htarget =>
      have hplace := Script.boundary_linesUp? hm.legible hline htarget
      exact .bind (keeps_moveTo hplace) fun _ => .pure _

private theorem keeps_startGame : Keeps (Intact script) startGame :=
  .bind (keeps_jumpTo _) fun _ => .pure _

private theorem keeps_defineSubroutine : Keeps (Intact script) defineSubroutine :=
  .bind keeps_readName fun _ => .bind (.modify fun _ hm => { hm with }) fun _ => .pure _

/-- The letter in front of a target is there before it is passed over. -/
theorem keeps_eatPointer : Keeps (Intact script) eatPointer := by
  refine .get fun m hm => .ite (fun _ => ?_) fun _ => .pure _
  obtain rfl := hm.script_eq
  have hpos := hm.scans.skipBlanks hm.cursor
  have hnext {letter : UInt8} (hlower : Byte.lower letter = letter) (hinline : Byte.Inline letter)
      (hat : m.script.holdsAt (m.script.skipBlanks m.cursor) (Byte.lower · == letter) = true) :
      Keeps (Intact m.script) (moveTo (m.script.skipBlanks m.cursor + 1)) := by
    refine keeps_moveTo (hm.scans.holdsAt hat (fun b hb => ?_) hpos)
    exact Byte.inline_of_lower_eq ((beq_iff_eq.mp hb).trans hlower.symm) hinline
  refine .ite (fun hat => .bind (hnext (by decide) (by decide) hat) fun _ => .pure _) fun _ => ?_
  exact .ite (fun hat => .bind (hnext (by decide) (by decide) hat) fun _ => .pure _) fun _ => .pure _

private theorem keeps_readParam (pointer : Option ParamPointer) (target : VariableRef) :
    Keeps (Intact script) (readParam pointer target) := by
  cases pointer with
  | none =>
    refine .ite (fun _ => ?_) fun _ => ?_
    · exact .bindGives gives_readStr fun value hvalue => keeps_writeStr _ hvalue
    · exact .bind keeps_readInt fun value => keeps_writeInt _ _
  | some pointer =>
    cases pointer with
    | int =>
      refine .bind keeps_readVarRef fun found => ?_
      cases found with
      | int n => exact keeps_writeInt _ _
      | str n | array no indices => exact .throw _
    | str =>
      refine .bind keeps_readVarRef fun found => ?_
      cases found with
      | str n => exact keeps_writeInt _ _
      | int n | array no indices => exact .throw _

private theorem keeps_readParamIfAny (pointer : Option ParamPointer) (target : VariableRef) :
    Keeps (Intact script) (readParamIfAny pointer target) :=
  .get fun _ _ => .ite (fun _ => .bind (keeps_readParam _ _) fun _ => .pure _) fun _ => .pure _

private theorem keeps_copyParams (targets : Nat) : Keeps (Intact script) (copyParams targets) := by
  induction targets with
  | zero => exact .pure _
  | succ targets ih =>
    refine .get fun m _ => .ite (fun _ => ?_) fun _ => .pure _
    refine .bind keeps_eatPointer fun pointer => .bind keeps_readVarRef fun target => ?_
    refine .guard fun _ => .get fun m hm => ?_
    cases hparams : m.nesting.params? with
    | none => exact .throw _
    | some params =>
      obtain ⟨call, hcall, hnext⟩ := Nesting.exists_of_params? hparams
      have haddr := hm.frames _ hcall params (by simp [Frame.addresses, hnext])
      have hread := gives_atAddress haddr (keeps_readParamIfAny pointer target)
      refine .bindGives hread fun reading hreached => .doUnless (keeps_warn _) ?_
      refine .bind (.modify fun m hm => ?_) fun _ => ih
      exact { hm with frames := Nesting.forall_addresses_setParamsIn hreached hm.frames }

private theorem keeps_getParams : Keeps (Intact script) getParams :=
  .get fun _ _ => .bind (keeps_copyParams _) fun _ => .pure _

/-! ## Narration -/

/-- The text that is handed over is whole. -/
theorem gives_readText : Gives (Intact script) Event.Readable readText := by
  refine .get fun m₀ hm₀ => .andThen (keeps_markRead _) fun seen => .get fun m hm => ?_
  have hstart : script.Boundary (min m₀.pc m.script.size) := by
    rw [hm.script_eq, Nat.min_eq_left hm₀.pc.le]
    exact hm₀.pc
  obtain ⟨hstore, hdelivered⟩ := hm.carries_setup.read hstart isText_nil hm.store
  refine .andThen (.set { hm with store := hstore }) fun _ => ?_
  refine .ofExcept_bind fun delivery hdelivery => ?_
  obtain ⟨hnext, htext⟩ := hdelivered delivery hdelivery
  refine .andThen (keeps_warnAll _) fun _ => ?_
  refine .andThen (.modify fun _ hm => { hm with pc := hnext }) fun _ => ?_
  refine .ite (fun _ => ?_) fun _ => .get fun m _ => ?_
  · refine .andThen (.modify fun _ hm => { hm with }) fun _ => ?_
    exact .ite (fun _ => .pure trivial) fun _ => .pure htext
  · cases m.textHook with
    | none => exact .pure htext
    | some label =>
      refine .andThen (keeps_pushFrame (boundary_ofBookmark hnext)) fun _ => ?_
      exact .andThen (keeps_jumpTo _) fun _ => .pure htext

private theorem keeps_readHook : Keeps (Intact script) readHook := by
  refine .bind keeps_readLabel fun label => .get fun m _ => ?_
  exact .bind Keeps.ofExcept.discard fun _ => .pure _

private theorem keeps_setTextHook : Keeps (Intact script) setTextHook :=
  .bind keeps_readHook fun _ => .bind (.modify fun _ hm => { hm with }) fun _ => .pure _

private theorem keeps_setPretextHook : Keeps (Intact script) setPretextHook :=
  .bind keeps_readHook fun _ => .bind (.modify fun _ hm => { hm with }) fun _ => .pure _

/-- A tag is one field, or its first field ends at a slash and the others come after it. -/
theorem tagFields_cases (tag : Bytes) : tagFields tag = [tag] ∨
    ∃ field rest, tag = field ++ Byte.slash :: rest ∧ tagFields tag = field :: tagFields rest := by
  induction tag with
  | nil => exact .inl rfl
  | cons b tag ih =>
    rw [tagFields]
    by_cases hslash : b = Byte.slash
    · rw [if_pos hslash]
      exact .inr ⟨[], tag, by rw [hslash, List.nil_append], rfl⟩
    · rw [if_neg hslash]
      rcases ih with hone | ⟨field, rest, rfl, hfields⟩
      · rw [hone]
        exact .inl rfl
      · rw [hfields]
        exact .inr ⟨b :: field, rest, rfl, rfl⟩

/-- A slash is a character of its own, so that fields of a text are texts. -/
theorem isText_of_mem_tagFields {tag : Bytes} (h : IsText tag) :
    ∀ field ∈ tagFields tag, IsText field := by
  induction hlength : tag.length using Nat.strong_induction_on generalizing tag with
  | _ n ih =>
    rcases tagFields_cases tag with hone | ⟨field, rest, rfl, hfields⟩
    · rw [hone]
      exact List.forall_mem_singleton.mpr h
    · have hslash : ∀ b ∈ (Byte.slash :: rest).head?, b.IsUTF8FirstByte := by
        rintro b ⟨⟩
        exact firstByte_of_ascii (by decide)
      obtain ⟨hfield, hbehind⟩ := h.cut hslash
      rw [hfields]
      refine List.forall_mem_cons.mpr ⟨hfield, ih rest.length ?_ (hbehind.tail (by decide)) rfl⟩
      rw [← hlength, List.length_append, List.length_cons]
      omega

private theorem keeps_copyFields (targets : Nat) {fields : List Bytes}
    (h : ∀ field ∈ fields, IsText field) : Keeps (Intact script) (copyFields targets fields) := by
  induction targets generalizing fields with
  | zero => exact .pure _
  | succ targets ih =>
    have hfirst : IsText (fields.headD []) := by
      cases fields with
      | nil => exact isText_nil
      | cons field fields => exact h field List.mem_cons_self
    have hrest : ∀ field ∈ fields.tail, IsText field := fun field hfield =>
      h field (List.mem_of_mem_tail hfield)
    refine .get fun m _ => .ite (fun _ => ?_) fun _ => .pure _
    refine .bind keeps_readVarRef fun target => ?_
    exact .join (keeps_writeStr _ hfirst) (keeps_writeInt _ _) fun _ => ih hrest

private theorem keeps_getTag : Keeps (Intact script) getTag := by
  refine .get fun m hm => ?_
  exact .bind (keeps_copyFields _ (isText_of_mem_tagFields hm.tag)) fun _ => .pure _

private theorem keeps_chooseClickMarkers : Keeps (Intact script) chooseClickMarkers := by
  refine .bindGives gives_readStr fun chars hchars => .get fun m _ => ?_
  refine .doIf keeps_readInt.discard (.bind (.modify fun m hm => ?_) fun _ => .pure _)
  have hmarkers : ∀ marker ∈ m.script.encoding.chars chars, IsText marker := by
    rw [hm.script_eq, hm.legible.encoding]
    exact Encoding.isText_of_mem_chars hchars
  exact { hm with markers := hmarkers }

/-! ## Saved games -/

/-- Writing the persistent files touches nothing that could be cut. -/
theorem keeps_savePersistent : Keeps (Intact script) savePersistent :=
  keeps_savePersistent_of fun _ _ hm => { hm with }

/-- Neither does writing a save slot. -/
theorem keeps_saveSlot (slot : Int32) (resume : Nat) (description : Option Bytes) :
    Keeps (Intact script) (saveSlot slot resume description) :=
  keeps_saveSlot_of (fun _ _ hm => { hm with }) slot resume description

private theorem keeps_saveGame : Keeps (Intact script) saveGame := by
  refine .bind keeps_readInt fun slot => .get fun m _ => ?_
  refine .join (.map _ gives_readStr.keeps) (.pure _) fun description => .get fun m _ => ?_
  exact .bind (keeps_saveSlot _ _ _) fun _ => .bind keeps_savePersistent fun _ => .pure _

private theorem keeps_testSlot : Keeps (Intact script) testSlot := by
  refine .bind keeps_readIntTarget fun target => .bind keeps_readInt fun slot => .get fun m _ => ?_
  exact .ofExcept_bind fun _ _ => .bind (keeps_writeInt _ _) fun _ => .pure _

/-! ## Steps -/

/-- Every built-in command but the one that loads a game keeps a machine intact. -/
theorem keeps_execute {command : Command} (h : command ≠ .loadgame) :
    Keeps (Intact script) (execute command) := by
  cases command with
  | mov => exact keeps_assign
  | add | sub | mul | div | mod => exact keeps_arithmetic _
  | inc | dec => exact keeps_increase _
  | cmp => exact keeps_compareStrings
  | itoa => exact keeps_integerToString
  | atoi => exact keeps_stringToInteger
  | len => exact keeps_stringLength
  | mid => exact keeps_substring
  | rnd => exact keeps_randomBelow
  | rnd2 => exact keeps_randomBetween
  | intlimit => exact keeps_limitVariable
  | dim => exact keeps_declareArray
  | numalias => exact keeps_nameNumber
  | stralias => exact keeps_nameString
  | goto => exact keeps_gotoLabel
  | gosub => exact keeps_gosub
  | returnCall => exact keeps_returnFromCall
  | rgosub => exact keeps_handlerGosub
  | forLoop => exact keeps_openLoop
  | next => exact keeps_loopAgain
  | breakLoop => exact keeps_breakLoop
  | ifHolds | notIf => exact keeps_conditional _
  | jumpf => exact keeps_jumpForward
  | jumpb => exact keeps_jumpBackward
  | skip => exact keeps_skipLines
  | endScript | reset => exact .pure _
  | game => exact keeps_startGame
  | defsub => exact keeps_defineSubroutine
  | getparam => exact keeps_getParams
  | textgosub => exact keeps_setTextHook
  | pretextgosub => exact keeps_setPretextHook
  | gettag => exact keeps_getTag
  | clickstr => exact keeps_chooseClickMarkers
  | labellog | filelog | globalon | kidokuskip =>
    exact .bind (.modify fun _ hm => { hm with }) fun _ => .pure _
  | savegame => exact keeps_saveGame
  | loadgame => exact absurd rfl h
  | savefileexist => exact keeps_testSlot

private theorem keeps_endStatement : Keeps (Intact script) endStatement := by
  refine .get fun m hm => ?_
  obtain rfl := hm.script_eq
  have hpos := hm.scans.skipBlanks hm.cursor
  refine .join (keeps_moveTo (hm.scans.skipStatement hpos)) (keeps_moveTo hpos) fun _ => ?_
  exact .ite (fun _ => keeps_warn _) fun _ => .pure _

private theorem keeps_restart : Keeps (Intact script) restart := by
  refine .bind (.modify fun m hm => ?_) fun _ => keeps_jumpTo _
  exact { hm with store := hm.store.reset, frames := List.forall_mem_nil _, tag := isText_nil }

/-- Neither does the end of the program. -/
theorem keeps_finishProgram : Keeps (Intact script) finishProgram := by
  refine .get fun m _ => .ite (fun _ => .pure _) fun _ => ?_
  exact .bind (.modify fun _ hm => { hm with }) fun _ => keeps_savePersistent

/-- Whatever a command leads to, its event can be read. -/
theorem gives_complete (outcome : Outcome) :
    Gives (Intact script) Event.Readable (complete outcome) := by
  cases outcome with
  | advance => exact .andThen keeps_endStatement fun _ => .pure trivial
  | skipLine =>
    refine .andThen (.modify fun m hm => ?_) fun _ => .pure trivial
    obtain rfl := hm.script_eq
    exact { hm with pc := Script.boundary_lineEnd hm.legible m.pc }
  | stay => exact .pure trivial
  | restart => exact .andThen keeps_restart fun _ => .pure trivial
  | stop => exact .andThen keeps_finishProgram fun _ => .pure trivial

/-- The event of a tag can be read if the tag is whole text. -/
theorem gives_runTag {start next : Nat} {tag : Bytes} (hnext : script.Boundary next)
    (htag : IsText tag) : Gives (Intact script) Event.Readable (runTag start next tag) := by
  refine .andThen (keeps_markRead _).discard fun _ => ?_
  refine .andThen (.modify fun _ hm => { hm with pc := hnext, tag := htag }) fun _ => ?_
  refine .get fun m _ => ?_
  cases m.pretextHook with
  | some label =>
    refine .andThen (keeps_pushFrame (boundary_ofBookmark hnext)) fun _ => ?_
    exact .andThen (keeps_jumpTo _) fun _ => .pure trivial
  | none => exact .andThen (.modify fun _ hm => { hm with }) fun _ => .pure trivial

end Intact

end Machine

end NovelScript
