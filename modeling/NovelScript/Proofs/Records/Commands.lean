import NovelScript.Proofs.Machine.Host
import NovelScript.Proofs.Machine.Loading
import NovelScript.Proofs.Records.Plain

/-!
# Commands are plain

Every command of the script is plain, and so is reading text once its address is marked: the records
of a machine come in by warnings, notices and files only. Only writing the persistent files is not,
where the folder for saves does not exist: whether it fails may then depend on the settings.
-/

namespace NovelScript

/-- No save slot takes the file of the marks. -/
theorem Save.fileName_ne_marksFile (slot : Int32) : Save.fileName slot ≠ Machine.marksFile := by
  intro h
  have hfirst : (Save.fileName slot).toList.head? = some 's' := by
    rw [Save.fileName, String.toList_append, String.toList_append]
    rfl
  rw [h] at hfirst
  revert hfirst
  decide

namespace Machine

variable {α : Type} {m : Machine} {r : Records}

/-! ## The small actions -/

/-- Several warnings are plain, as one is. -/
theorem plain_warnAll (warnings : List Warning) : Plain (warnAll warnings) := by
  induction warnings with
  | nil => exact .pure ()
  | cons warning warnings ih => exact .bind (.warn warning) fun _ => ih

/-- Going on at another address is plain. -/
theorem plain_moveTo (addr : Nat) : Plain (moveTo addr) :=
  .modify fun _ _ => rfl

/-- So is a jump. -/
theorem plain_jumpTo (name : String) : Plain (jumpTo name) :=
  .get (fun _ _ => rfl) fun _ => .bind (.ofExcept _) fun _ => .modify fun _ _ => rfl

private theorem plain_resumeText (bookmark : Bookmark) : Plain (resumeText bookmark) :=
  .modify fun _ _ => rfl

private theorem plain_pushFrame (frame : Frame) : Plain (pushFrame frame) :=
  .get (fun _ _ => rfl) fun _ => .bind (.ofExcept _) fun _ => .modify fun _ _ => rfl

/-- So is a change of the variables. -/
theorem plain_updateStore (f : Store → Except Fault Store) : Plain (updateStore f) :=
  .get (fun _ _ => rfl) fun _ => .bind (.ofExcept _) fun _ => .modify fun _ _ => rfl

/-! ## Operands -/

/-- So is reading an operand, with the warnings that it gives. -/
theorem plain_operand (read : Operand.Scope → Operand.Reader α) : Plain (operand read) := by
  refine .get (fun _ _ => rfl) fun m => ?_
  cases (read m.scope).run { pos := m.cursor } with
  | ok value after =>
    exact .bind (plain_warnAll _) fun _ => .bind (plain_moveTo _) fun _ => .pure value
  | error fault after => exact .bind (plain_warnAll _) fun _ => .throw fault

private theorem plain_readIntTarget : Plain readIntTarget :=
  .bind (plain_operand _) fun target => .guard (.pure target)

private theorem plain_readStrTarget : Plain readStrTarget := by
  refine .bind (plain_operand _) fun target => ?_
  cases target with
  | str n => exact .pure n
  | int n => exact .throw _
  | array no indices => exact .throw _

/-- So is passing over a keyword. -/
theorem plain_eatKeyword (word : String) : Plain (eatKeyword word) := by
  refine .get (fun _ _ => rfl) fun m => ?_
  cases m.script.keyword? word (m.script.skipBlanks m.cursor) with
  | some after => exact .bind (plain_moveTo _) fun _ => .pure true
  | none => exact .pure false

/-- So is passing over a token. -/
theorem plain_eatToken (token : Bytes) : Plain (eatToken token) :=
  .get (fun _ _ => rfl) fun _ => .ite (.bind (plain_moveTo _) fun _ => .pure true) (.pure false)

private theorem plain_expectToken (token : String) : Plain (expectToken token) :=
  .bind (plain_eatToken _) fun _ => .ite (.pure ()) (.throw _)

/-! ## Variables -/

private theorem plain_setStr (n : Nat) (value : Bytes) : Plain (setStr n value) :=
  .modify fun _ _ => rfl

private theorem plain_valueOf (target : VariableRef) : Plain (valueOf target) :=
  .get (fun _ _ => rfl) fun _ => .ofExcept _

private theorem plain_assign : Plain assign := by
  refine .bind (plain_operand _) fun target => .bind (plain_eatToken _).discard fun _ => ?_
  refine .ite ?_ (.get (fun _ _ => rfl) fun _ => .ite .fail ?_)
  · exact .bind (plain_operand _) fun _ => .bind (plain_updateStore _) fun _ => .pure _
  · exact .bind (plain_operand _) fun _ => .bind (plain_updateStore _) fun _ => .pure _

private theorem plain_arithmetic (op : Operator) : Plain (arithmetic op) := by
  have hnumber : ∀ target, Plain (do
      let rhs ← readInt
      let lhs ← valueOf target
      let value ← Action.ofExcept (op.apply lhs rhs)
      writeInt target value
      return Outcome.advance) := fun target =>
    .bind (plain_operand _) fun _ => .bind (plain_valueOf _) fun _ => .bind (.ofExcept _) fun _ =>
      .bind (plain_updateStore _) fun _ => .pure _
  refine .bind (plain_operand _) fun target => ?_
  cases target with
  | str n =>
    refine .guard (.get (fun _ _ => rfl) fun _ => ?_)
    exact .bind (plain_operand _) fun _ => .bind (plain_setStr _ _) fun _ => .pure _
  | int n => exact hnumber _
  | array no indices => exact hnumber _

private theorem plain_increase (amount : Int32) : Plain (increase amount) :=
  .bind plain_readIntTarget fun _ => .bind (plain_valueOf _) fun _ =>
    .bind (plain_updateStore _) fun _ => .pure _

private theorem plain_compareStrings : Plain compareStrings :=
  .bind plain_readIntTarget fun _ => .bind (plain_operand _) fun _ =>
    .bind (plain_operand _) fun _ => .bind (plain_updateStore _) fun _ => .pure _

private theorem plain_integerToString : Plain integerToString :=
  .bind plain_readStrTarget fun _ => .bind (plain_operand _) fun _ =>
    .bind (plain_setStr _ _) fun _ => .pure _

private theorem plain_stringToInteger : Plain stringToInteger :=
  .bind plain_readIntTarget fun _ => .bind (plain_operand _) fun _ =>
    .bind (plain_updateStore _) fun _ => .pure _

private theorem plain_stringLength : Plain stringLength :=
  .bind plain_readIntTarget fun _ => .bind (plain_operand _) fun _ =>
    .bind (plain_updateStore _) fun _ => .pure _

private theorem plain_substring : Plain substring := by
  refine .bind plain_readStrTarget fun _ => .bind (plain_operand _) fun _ => ?_
  refine .bind (plain_operand _) fun _ => .bind (plain_operand _) fun _ => ?_
  exact .get (fun _ _ => rfl) fun _ => .bind (plain_setStr _ _) fun _ => .pure _

private theorem plain_randomBelow : Plain randomBelow := by
  refine .bind plain_readIntTarget fun _ => .bind (plain_operand _) fun _ => ?_
  refine .get (fun _ _ => rfl) fun _ => .bind (.modify fun _ _ => rfl) fun _ => ?_
  exact .bind (plain_updateStore _) fun _ => .pure _

private theorem plain_randomBetween : Plain randomBetween := by
  refine .bind plain_readIntTarget fun _ => .bind (plain_operand _) fun _ => ?_
  refine .bind (plain_operand _) fun _ => .get (fun _ _ => rfl) fun _ => ?_
  refine .bind (.modify fun _ _ => rfl) fun _ => .bind (plain_updateStore _) fun _ => .pure _

private theorem plain_limitVariable : Plain limitVariable := by
  refine .bind (plain_eatToken _).discard fun _ => .bind (plain_operand _) fun _ => ?_
  refine .bind (plain_operand _) fun _ => .bind (plain_operand _) fun _ => ?_
  exact .bind (.ofExcept _) fun _ => .bind (plain_updateStore _) fun _ => .pure _

private theorem plain_declareArray : Plain declareArray := by
  refine .bind (plain_operand _) fun target => ?_
  cases target with
  | array no dims => exact .bind (plain_updateStore _) fun _ => .pure _
  | int n => exact .fail
  | str n => exact .fail

private theorem plain_nameNumber : Plain nameNumber := by
  refine .bind (plain_operand _) fun _ => .bind (plain_operand _) fun _ => ?_
  refine .get (fun _ _ => rfl) fun _ => .bind (.modify fun _ _ => rfl) fun _ => ?_
  exact .bind (.note _) fun _ => .pure _

private theorem plain_nameString : Plain nameString := by
  refine .bind (plain_operand _) fun _ => .bind (plain_operand _) fun _ => ?_
  refine .get (fun _ _ => rfl) fun _ => .bind (.modify fun _ _ => rfl) fun _ => ?_
  exact .bind (.note _) fun _ => .pure _

/-! ## Control flow -/

private theorem plain_gotoLabel : Plain gotoLabel :=
  .bind (plain_operand _) fun _ => .bind (plain_jumpTo _) fun _ => .pure _

/-- An opening and a jump to a label. -/
theorem plain_pushFrame_jumpTo (frame : Frame) (label : String) (a : α) : Plain (do
    pushFrame frame
    jumpTo label
    return a) :=
  .bind (plain_pushFrame frame) fun _ => .bind (plain_jumpTo label) fun _ => .pure a

private theorem plain_callLabel (label : String) : Plain (callLabel label) :=
  .get (fun _ _ => rfl) fun _ => plain_pushFrame_jumpTo _ _ _

private theorem plain_gosub : Plain gosub :=
  .bind (plain_operand _) fun _ => plain_callLabel _

private theorem plain_leaveCall (frame : CallFrame) : Plain (leaveCall frame) := by
  unfold leaveCall
  split
  · exact plain_resumeText _
  · exact plain_resumeText _
  · exact .bind (.modify fun _ _ => rfl) fun _ => plain_resumeText _
  · exact .modify fun _ _ => rfl

private theorem plain_returnFromCall : Plain returnFromCall := by
  refine .get (fun _ _ => rfl) fun m => ?_
  refine .join ((plain_operand _).map _) (.pure none) fun target => ?_
  refine .get (fun _ _ => rfl) fun m => .bind (.ofExcept _) fun (frame, nesting) => ?_
  refine .bind (.modify fun _ _ => rfl) fun _ => ?_
  cases target with
  | none => exact .bind (plain_leaveCall frame) fun _ => .pure _
  | some label => exact .bind (plain_jumpTo label) fun _ => .pure _

private theorem plain_handlerGosub : Plain handlerGosub := by
  refine .bind (plain_operand _) fun label => .get (fun _ _ => rfl) fun m => ?_
  cases m.nesting.bookmark? with
  | some bookmark => exact plain_pushFrame_jumpTo _ _ _
  | none => exact .bind (.warn _) fun _ => plain_callLabel label

private theorem plain_openLoop : Plain openLoop := by
  refine .bind plain_readIntTarget fun counter => .bind (plain_expectToken _) fun _ => ?_
  refine .bind (plain_operand _) fun start => .bind (plain_eatKeyword _) fun _ => .ite ?_ .fail
  refine .bind (plain_operand _) fun bound => .bind (plain_eatKeyword _) fun _ => ?_
  refine .join (plain_operand _) (.pure 1) fun step => .guard ?_
  refine .bind (plain_updateStore _) fun _ => .bind (plain_valueOf _) fun value => ?_
  refine .get (fun _ _ => rfl) fun m => .ite ?_ (.bind (plain_pushFrame _) fun _ => .pure _)
  refine .bind (.ofExcept _) fun found => .bind (plain_pushFrame _) fun _ => ?_
  exact .bind (plain_moveTo _) fun _ => .pure _

private theorem plain_closeLoop : Plain closeLoop :=
  .get (fun _ _ => rfl) fun _ => .bind (.ofExcept _) fun (_, _) => .modify fun _ _ => rfl

private theorem plain_loopAgain : Plain loopAgain := by
  refine .get (fun _ _ => rfl) fun m => .bind (.ofExcept _) fun frame => ?_
  refine .ite (.bind plain_closeLoop fun _ => .pure _) ?_
  refine .bind (plain_valueOf _) fun value => .bind (plain_updateStore _) fun _ => ?_
  refine .bind (plain_valueOf _) fun reached => .ite ?_ ?_
  · exact .bind plain_closeLoop fun _ => .pure _
  · exact .bind (plain_moveTo _) fun _ => .pure _

private theorem plain_breakLoop : Plain breakLoop := by
  refine .get (fun _ _ => rfl) fun m => .ite ?_ (.get (fun _ _ => rfl) fun m => ?_)
  · refine .bind (plain_operand _) fun label => .get (fun _ _ => rfl) fun m => ?_
    exact .join plain_closeLoop (.warn _) fun _ => .bind (plain_jumpTo label) fun _ => .pure _
  · refine .bind (.ofExcept _) fun found => .ite (.bind (.ofExcept _) fun nesting => ?_) ?_
    · exact .bind (.modify fun _ _ => rfl) fun _ => .bind (plain_moveTo _) fun _ => .pure _
    · exact .bind (.warn _) fun _ => .bind (plain_moveTo _) fun _ => .pure _

private theorem plain_readComparisonOf (tokens : List (Bytes × Comparison)) :
    Plain (readComparisonOf tokens) := by
  induction tokens with
  | nil => exact .pure none
  | cons token rest ih => exact .bind (plain_eatToken _) fun _ => .ite (.pure _) ih

private theorem plain_conditionTerm : Plain conditionTerm := by
  refine .bind (plain_eatKeyword _) fun _ => .ite ?_ ?_
  · exact .bind (plain_operand _) fun _ => .get (fun _ _ => rfl) fun _ => .pure _
  refine .bind (plain_eatKeyword _) fun _ => .ite ?_ ?_
  · exact .bind (plain_operand _) fun _ => .get (fun _ _ => rfl) fun _ => .pure _
  refine .get (fun _ _ => rfl) fun m => .ite ?_ ?_
  · refine .bind (plain_operand _) fun lhs => .bind (plain_readComparisonOf _) fun found => ?_
    cases found with
    | none => exact .throw _
    | some comparison => exact .bind (plain_operand _) fun _ => .pure _
  · refine .bind (plain_operand _) fun lhs => .bind (plain_readComparisonOf _) fun found => ?_
    cases found with
    | none => exact .pure _
    | some comparison => exact .bind (plain_operand _) fun _ => .pure _

private theorem plain_conditionTail (terms : Nat) (result : Bool) :
    Plain (conditionTail terms result) := by
  induction terms generalizing result with
  | zero => exact .pure result
  | succ terms ih =>
    refine .bind (plain_eatToken _) fun double => ?_
    refine .join (.pure true) (plain_eatToken _) fun joined => .ite ?_ (.pure result)
    exact .bind plain_conditionTerm fun term => ih _

private theorem plain_conditional (expected : Bool) : Plain (conditional expected) := by
  refine .bind plain_conditionTerm fun first => .get (fun _ _ => rfl) fun m => ?_
  exact .bind (plain_conditionTail _ _) fun _ => .ite (.pure _) (.pure _)

private theorem plain_jumpForward : Plain jumpForward := by
  refine .apart fun m r => ?_
  have hsection : (m.withRecords r).script.sectionAfter? (m.withRecords r).cursor =
      m.script.sectionAfter? m.cursor := rfl
  rw [jumpForward, Action.get_bind, Action.get_bind, hsection]
  cases m.script.sectionAfter? m.cursor <;> rfl

private theorem plain_jumpBackward : Plain jumpBackward := by
  refine .get (fun _ _ => rfl) fun m => ?_
  cases m.lastSection with
  | none => exact .throw _
  | some target => exact .bind (plain_moveTo _) fun _ => .pure _

private theorem plain_skipLines : Plain skipLines := by
  refine .bind (plain_operand _) fun n => .get (fun _ _ => rfl) fun m => .ite ?_ ?_
  · exact .bind (plain_moveTo _) fun _ => .pure _
  · cases m.script.linesUp? n.toInt.natAbs (m.script.lineStart m.pc) with
    | none => exact .fail
    | some target => exact .bind (plain_moveTo _) fun _ => .pure _

private theorem plain_startGame : Plain startGame :=
  .bind (plain_jumpTo _) fun _ => .pure _

private theorem plain_defineSubroutine : Plain defineSubroutine :=
  .bind (plain_operand _) fun _ => .bind (.modify fun _ _ => rfl) fun _ => .pure _

private theorem plain_eatPointer : Plain eatPointer := by
  refine .get (fun _ _ => rfl) fun m => .ite (.ite ?_ (.ite ?_ (.pure none))) (.pure none)
  · exact .bind (plain_moveTo _) fun _ => .pure _
  · exact .bind (plain_moveTo _) fun _ => .pure _

private theorem plain_readParam (pointer : Option ParamPointer) (target : VariableRef) :
    Plain (readParam pointer target) := by
  unfold readParam
  cases pointer with
  | none =>
    exact .ite (.bind (plain_operand _) fun _ => plain_updateStore _)
      (.bind (plain_operand _) fun _ => plain_updateStore _)
  | some kind =>
    cases kind with
    | int =>
      refine .bind (plain_operand _) fun other => ?_
      cases other with
      | int n => exact plain_updateStore _
      | str n => exact .throw _
      | array no indices => exact .throw _
    | str =>
      refine .bind (plain_operand _) fun other => ?_
      cases other with
      | str n => exact plain_updateStore _
      | int n => exact .throw _
      | array no indices => exact .throw _

private theorem plain_readParamIfAny (pointer : Option ParamPointer) (target : VariableRef) :
    Plain (readParamIfAny pointer target) :=
  .get (fun _ _ => rfl) fun _ =>
    .ite (.bind (plain_readParam _ _) fun _ => .pure true) (.pure false)

private theorem plain_copyParams (targets : Nat) : Plain (copyParams targets) := by
  induction targets with
  | zero => exact .pure ()
  | succ targets ih =>
    refine .get (fun _ _ => rfl) fun m => .ite ?_ (.pure ())
    refine .bind plain_eatPointer fun pointer => .bind (plain_operand _) fun target => ?_
    refine .guard (.get (fun _ _ => rfl) fun m => ?_)
    cases m.nesting.params? with
    | none => exact .throw _
    | some params =>
      refine .bind (.atAddress (plain_readParamIfAny _ _) _) fun (found, after) => ?_
      exact .doUnless (.warn _) (.bind (.modify fun _ _ => rfl) fun _ => ih)

private theorem plain_getParams : Plain getParams :=
  .get (fun _ _ => rfl) fun _ => .bind (plain_copyParams _) fun _ => .pure _

/-! ## Narration -/

private theorem plain_readHook : Plain readHook :=
  .bind (plain_operand _) fun _ => .get (fun _ _ => rfl) fun _ =>
    .bind (Plain.ofExcept _).discard fun _ => .pure _

private theorem plain_setTextHook : Plain setTextHook :=
  .bind plain_readHook fun _ => .bind (.modify fun _ _ => rfl) fun _ => .pure _

private theorem plain_setPretextHook : Plain setPretextHook :=
  .bind plain_readHook fun _ => .bind (.modify fun _ _ => rfl) fun _ => .pure _

private theorem plain_copyFields (targets : Nat) (fields : List Bytes) :
    Plain (copyFields targets fields) := by
  induction targets generalizing fields with
  | zero => exact .pure ()
  | succ targets ih =>
    refine .get (fun _ _ => rfl) fun m => .ite ?_ (.pure ())
    refine .bind (plain_operand _) fun target => ?_
    exact .join (plain_updateStore _) (plain_updateStore _) fun _ => ih _

private theorem plain_getTag : Plain getTag :=
  .get (fun _ _ => rfl) fun _ => .bind (plain_copyFields _ _) fun _ => .pure _

private theorem plain_chooseClickMarkers : Plain chooseClickMarkers := by
  refine .bind (plain_operand _) fun chars => .get (fun _ _ => rfl) fun m => ?_
  exact .doIf (plain_operand _).discard (.bind (.modify fun _ _ => rfl) fun _ => .pure _)

/-! ## Saves and persistent files -/

/-- Whether saves are looked for does not depend on the file of the marks. -/
theorem requireSaves_withRecords (h : m.saves.Agrees r.saves) :
    (m.withRecords r).requireSaves = m.requireSaves := by
  have hsaves : (m.withRecords r).saves = r.saves := rfl
  have habsent := h.absent_iff
  rw [requireSaves, requireSaves, hsaves]
  revert habsent
  cases m.saves <;> cases r.saves <;> simp

/-- The other files are found whatever there is in the file of the marks. -/
theorem readSaved?_withRecords (h : m.saves.Agrees r.saves) {name : String}
    (hname : name ≠ marksFile) : (m.withRecords r).readSaved? name = m.readSaved? name := by
  exact h.read name hname

private theorem slotExists_withRecords (h : m.saves.Agrees r.saves) (slot : Int32) :
    (m.withRecords r).slotExists slot = m.slotExists slot := by
  rw [slotExists, slotExists, readSaved?_withRecords h (Save.fileName_ne_marksFile slot)]

/-- Writing a save slot is plain. -/
theorem plain_saveSlot (slot : Int32) (resume : Nat) (description : Option Bytes) :
    Plain (saveSlot slot resume description) := by
  refine .look (fun m r hsaves => ?_) fun m => .bind (.ofExcept _) fun _ => ?_
  · rw [requireSaves_withRecords hsaves]
    rfl
  · exact .write (Save.fileName_ne_marksFile slot) _

private theorem framesOf_withRecords (m : Machine) (r : Records) (saved : List SavedFrame) :
    (m.withRecords r).framesOf saved = m.framesOf saved := by
  induction saved with
  | nil => rfl
  | cons frame rest ih =>
    have hframe : (m.withRecords r).frameOf frame = m.frameOf frame := rfl
    rw [framesOf, framesOf, ih, hframe]

private theorem restore_withRecords (m : Machine) (r : Records) (save : Save) :
    (m.withRecords r).restore save =
      (m.restore save).map fun restored => restored.withRecords r := by
  have hposition : (m.withRecords r).addressOf save.position = m.addressOf save.position := rfl
  simp only [restore, framesOf_withRecords, hposition]
  cases m.framesOf save.frames with
  | error fault => rfl
  | ok frames => cases m.addressOf save.position <;> rfl

/-- So is going on with a saved game. -/
theorem plain_resume (save : Save) : Plain (resume save) := by
  refine .apart fun m r => ?_
  rw [resume, Action.get_bind, Action.get_bind, restore_withRecords]
  cases m.restore save <;> rfl

/-- Loading a slot is to go on with the game that is stored there. -/
theorem loadSlot_eq (slot : Int32) : loadSlot slot = (do
    let m ← get
    Action.ofExcept m.requireSaves
    match m.readSaved? (Save.fileName slot) with
    | none => throw (.fileUnavailable (Save.fileName slot))
    | some bytes =>
      let save ← Action.ofExcept (Save.ofBytes bytes)
      resume save) := by
  funext m
  rw [loadSlot, Action.get_bind, Action.get_bind]
  cases m.requireSaves with
  | error fault => rfl
  | ok _ =>
    cases m.readSaved? (Save.fileName slot) with
    | none => rfl
    | some bytes =>
      dsimp only
      cases Save.ofBytes bytes <;> rfl

/-- So is loading a slot, which is no file of marks. -/
theorem plain_loadSlot (slot : Int32) : Plain (loadSlot slot) := by
  rw [loadSlot_eq]
  refine .look (fun m r hsaves => ?_) fun m => .bind (.ofExcept _) fun _ => ?_
  · rw [requireSaves_withRecords hsaves,
      readSaved?_withRecords hsaves (Save.fileName_ne_marksFile slot)]
  · cases m.readSaved? (Save.fileName slot) with
    | none => exact .throw _
    | some bytes => exact .bind (.ofExcept _) fun save => plain_resume save

/-- Writes the persistent files other than that of the marks. -/
def saveOthers : Run Unit := do
  let m ← get
  if m.labelLog.enabled then writeSaved labelLogFile m.labelLog.toBytes
  if m.fileLog.enabled then writeSaved fileLogFile m.fileLog.toBytes
  if m.keepGlobals then writeSaved Store.globalsFile m.store.globalsBytes

private theorem plain_saveOthers : Plain saveOthers := by
  refine .get (fun _ _ => rfl) fun m => .doIf (.write (by decide) _) ?_
  exact .doIf (.write (by decide) _) (.ite (.write (by decide) _) (.pure ()))

/-- The marks are written first and then the other files. -/
theorem savePersistent_eq : savePersistent = (do writeMarks; saveOthers) := by
  funext m
  have hwritten := writeSaved_eq_records m marksFile m.marks.toBytes
  by_cases htrack : m.settings.trackRead
  · have hmarks : writeMarks m = writeSaved marksFile m.marks.toBytes m := by
      rw [writeMarks, Action.get_bind, if_pos htrack]
    rw [savePersistent, Action.get_bind, if_pos htrack]
    cases hrefusal : m.saves.refusals marksFile 0 with
    | none =>
      rw [hrefusal] at hwritten
      rw [Action.bind_of_ok hwritten, Action.bind_of_ok (hmarks.trans hwritten)]
      rfl
    | some failure =>
      rw [hrefusal] at hwritten
      rw [Action.bind_of_error hwritten, Action.bind_of_error (hmarks.trans hwritten)]
  · have hmarks : writeMarks m = .ok () m := by
      rw [writeMarks, Action.get_bind, if_neg htrack]
      rfl
    rw [savePersistent, Action.get_bind, if_neg htrack, Action.bind_of_ok hmarks]
    rfl

/-- Writing the persistent files is plain: the marks come first, and then files other than
theirs. -/
theorem plain_savePersistent : Plain savePersistent := by
  rw [savePersistent_eq]
  exact .bind .writeMarks fun _ => plain_saveOthers

private theorem plain_saveGame : Plain saveGame := by
  refine .bind (plain_operand _) fun slot => .get (fun _ _ => rfl) fun m => ?_
  refine .join ((plain_operand _).map _) (.pure none) fun description => ?_
  refine .get (fun _ _ => rfl) fun m => ?_
  exact .bind (plain_saveSlot _ _ _) fun _ => .bind plain_savePersistent fun _ => .pure _

private theorem plain_loadGame : Plain loadGame := by
  refine .bind (plain_operand _) fun slot => .look (fun m r hsaves => ?_) fun m => ?_
  · rw [requireSaves_withRecords hsaves, slotExists_withRecords hsaves]
  · refine .bind (.ofExcept _) fun _ => .ite ?_ (.bind (.warn _) fun _ => .pure _)
    exact .bind (plain_loadSlot _) fun _ => .pure _

private theorem plain_testSlot : Plain testSlot := by
  refine .bind plain_readIntTarget fun target => .bind (plain_operand _) fun slot => ?_
  refine .look (fun m r hsaves => ?_) fun m => ?_
  · rw [requireSaves_withRecords hsaves, slotExists_withRecords hsaves]
  · exact .bind (.ofExcept _) fun _ => .bind (plain_updateStore _) fun _ => .pure _

/-! ## Commands -/

/-- **Every command of the script is plain.** -/
theorem plain_execute (command : Command) : Plain (execute command) := by
  cases command with
  | mov => exact plain_assign
  | add | sub | mul | div | mod => exact plain_arithmetic _
  | inc | dec => exact plain_increase _
  | cmp => exact plain_compareStrings
  | itoa => exact plain_integerToString
  | atoi => exact plain_stringToInteger
  | len => exact plain_stringLength
  | mid => exact plain_substring
  | rnd => exact plain_randomBelow
  | rnd2 => exact plain_randomBetween
  | intlimit => exact plain_limitVariable
  | dim => exact plain_declareArray
  | numalias => exact plain_nameNumber
  | stralias => exact plain_nameString
  | goto => exact plain_gotoLabel
  | gosub => exact plain_gosub
  | returnCall => exact plain_returnFromCall
  | rgosub => exact plain_handlerGosub
  | forLoop => exact plain_openLoop
  | next => exact plain_loopAgain
  | breakLoop => exact plain_breakLoop
  | ifHolds | notIf => exact plain_conditional _
  | jumpf => exact plain_jumpForward
  | jumpb => exact plain_jumpBackward
  | skip => exact plain_skipLines
  | endScript | reset => exact .pure _
  | game => exact plain_startGame
  | defsub => exact plain_defineSubroutine
  | getparam => exact plain_getParams
  | textgosub => exact plain_setTextHook
  | pretextgosub => exact plain_setPretextHook
  | gettag => exact plain_getTag
  | clickstr => exact plain_chooseClickMarkers
  | labellog | filelog | globalon | kidokuskip =>
    exact .bind (.modify fun _ _ => rfl) fun _ => .pure _
  | savegame => exact plain_saveGame
  | loadgame => exact plain_loadGame
  | savefileexist => exact plain_testSlot

end Machine

end NovelScript
