import NovelScript.Proofs.Machine.Reachable

/-!
# The handlers of text are labels

The script attaches labels to the pauses of text and to the tags in front of it. A label is looked
for when it is attached, and labels stay what they are, so that a handler is always found when it is
called. On the way along all commands this file also notes that only one of them asks for a new
game.
-/

namespace NovelScript.Machine

open NovelScript.Action (Keeps Gives Returns)

variable {α : Type} {m : Machine}

/-- The handlers of pauses and of tags are labels of the script. -/
def Handled (m : Machine) : Prop :=
  ∀ name, m.textHook = some name ∨ m.pretextHook = some name →
    ∃ label, m.labels.byName name = .ok label

/-- The handlers stay labels, and no new game is asked for. -/
def GoesOn (x : Run Outcome) : Prop :=
  Gives Handled (· ≠ .restart) x

private theorem goesOn_advance : GoesOn (pure .advance) :=
  .pure (by decide)

private theorem goesOn_stay : GoesOn (pure .stay) :=
  .pure (by decide)

/-! ## Small actions -/

private theorem handled_warn (warning : Warning) : Keeps Handled (warn warning) :=
  keeps_warn_of (fun _ _ _ h => h) warning

private theorem handled_warnAll (warnings : List Warning) : Keeps Handled (warnAll warnings) :=
  keeps_warnAll_of (fun _ _ _ h => h) warnings

private theorem handled_moveTo (addr : Nat) : Keeps Handled (moveTo addr) :=
  .modify fun _ h => h

private theorem handled_jumpTo (name : String) : Keeps Handled (jumpTo name) :=
  .get fun _ _ => .ofExcept_bind fun _ _ => .modify fun _ h => h

private theorem handled_markRead (addr : Nat) : Keeps Handled (markRead addr) :=
  keeps_markRead_of (fun _ _ h => h) addr

private theorem handled_pushFrame (frame : Frame) : Keeps Handled (pushFrame frame) :=
  .get fun _ _ => .ofExcept_bind fun _ _ => .modify fun _ h => h

private theorem handled_updateStore (f : Store → Except Fault Store) :
    Keeps Handled (updateStore f) :=
  .get fun _ _ => .ofExcept_bind fun _ _ => .modify fun _ h => h

private theorem handled_operand (read : Operand.Scope → Operand.Reader α) :
    Keeps Handled (operand read) :=
  keeps_operand_of (fun _ _ h => h) (fun _ _ _ h => h) read

private theorem handled_eatKeyword (word : String) : Keeps Handled (eatKeyword word) :=
  keeps_eatKeyword_of (fun _ _ h => h) word

private theorem handled_eatToken (token : Bytes) : Keeps Handled (eatToken token) :=
  keeps_eatToken_of (fun _ _ h => h) token

private theorem handled_expectToken (token : String) : Keeps Handled (expectToken token) :=
  .bind (handled_eatToken _) fun _ => .ite (fun _ => .pure _) fun _ => .throw _

private theorem handled_readIntTarget : Keeps Handled readIntTarget :=
  .bind (handled_operand _) fun _ => .guard fun _ => .pure _

private theorem handled_readStrTarget : Keeps Handled readStrTarget := by
  refine .bind (handled_operand _) fun target => ?_
  cases target with
  | str n => exact .pure _
  | int n | array no indices => exact .throw _

/-! ## Commands on variables -/

private theorem handled_setStr (n : Nat) (value : Bytes) : Keeps Handled (setStr n value) :=
  .modify fun _ h => h

private theorem handled_valueOf (target : VariableRef) : Keeps Handled (valueOf target) :=
  .get fun _ _ => .ofExcept

private theorem goesOn_assign : GoesOn assign := by
  refine .andThen (handled_operand _) fun target => .andThen (handled_eatToken _).discard fun _ => ?_
  refine .ite (fun _ => ?_) fun _ => .get fun m _ => .ite (fun _ => .fail) fun _ => ?_
  · exact .andThen (handled_operand _) fun _ => .andThen (handled_updateStore _) fun _ => goesOn_advance
  · exact .andThen (handled_operand _) fun _ => .andThen (handled_updateStore _) fun _ => goesOn_advance

private theorem goesOn_arithmetic (op : Operator) : GoesOn (arithmetic op) := by
  refine .andThen (handled_operand _) fun target => ?_
  cases target with
  | str n =>
    refine .ite (fun _ => .fail) fun _ => .get fun m _ => .andThen (handled_operand _) fun _ => ?_
    exact .andThen (handled_setStr _ _) fun _ => goesOn_advance
  | int n | array no indices =>
    refine .andThen (handled_operand _) fun rhs => .andThen (handled_valueOf _) fun lhs => ?_
    refine .ofExcept_bind fun value _ => ?_
    exact .andThen (handled_updateStore _) fun _ => goesOn_advance

private theorem goesOn_increase (amount : Int32) : GoesOn (increase amount) := by
  refine .andThen handled_readIntTarget fun target => .andThen (handled_valueOf _) fun value => ?_
  exact .andThen (handled_updateStore _) fun _ => goesOn_advance

private theorem goesOn_compareStrings : GoesOn compareStrings := by
  refine .andThen handled_readIntTarget fun target => .andThen (handled_operand _) fun a => ?_
  exact .andThen (handled_operand _) fun b => .andThen (handled_updateStore _) fun _ => goesOn_advance

private theorem goesOn_integerToString : GoesOn integerToString := by
  refine .andThen handled_readStrTarget fun n => .andThen (handled_operand _) fun value => ?_
  exact .andThen (handled_setStr _ _) fun _ => goesOn_advance

private theorem goesOn_stringToInteger : GoesOn stringToInteger := by
  refine .andThen handled_readIntTarget fun target => .andThen (handled_operand _) fun text => ?_
  exact .andThen (handled_updateStore _) fun _ => goesOn_advance

private theorem goesOn_stringLength : GoesOn stringLength := by
  refine .andThen handled_readIntTarget fun target => .andThen (handled_operand _) fun text => ?_
  exact .andThen (handled_updateStore _) fun _ => goesOn_advance

private theorem goesOn_substring : GoesOn substring := by
  refine .andThen handled_readStrTarget fun n => .andThen (handled_operand _) fun text => ?_
  refine .andThen (handled_operand _) fun start => .andThen (handled_operand _) fun count => ?_
  exact .get fun m _ => .andThen (handled_setStr _ _) fun _ => goesOn_advance

private theorem goesOn_randomBelow : GoesOn randomBelow := by
  refine .andThen handled_readIntTarget fun target => .andThen (handled_operand _) fun upper => ?_
  refine .get fun m _ => .andThen (.modify fun _ h => h) fun _ => ?_
  exact .andThen (handled_updateStore _) fun _ => goesOn_advance

private theorem goesOn_randomBetween : GoesOn randomBetween := by
  refine .andThen handled_readIntTarget fun target => .andThen (handled_operand _) fun lower => ?_
  refine .andThen (handled_operand _) fun upper => .get fun m _ => ?_
  obtain ⟨value, chance⟩ := m.chance.between lower upper
  refine .andThen (.modify fun _ h => h) fun _ => ?_
  exact .andThen (handled_updateStore _) fun _ => goesOn_advance

private theorem goesOn_limitVariable : GoesOn limitVariable := by
  refine .andThen (handled_eatToken _).discard fun _ => .andThen (handled_operand _) fun n => ?_
  refine .andThen (handled_operand _) fun lower => .andThen (handled_operand _) fun upper => ?_
  exact .ofExcept_bind fun slot _ => .andThen (handled_updateStore _) fun _ => goesOn_advance

private theorem goesOn_declareArray : GoesOn declareArray := by
  refine .andThen (handled_operand _) fun target => ?_
  cases target with
  | array no dims => exact .andThen (handled_updateStore _) fun _ => goesOn_advance
  | int n | str n => exact .fail

private theorem goesOn_nameNumber : GoesOn nameNumber := by
  refine .andThen (handled_operand _) fun name => .andThen (handled_operand _) fun value => ?_
  refine .get fun m _ => .andThen (.modify fun _ h => h) fun _ => ?_
  exact .andThen (.modify fun _ h => h) fun _ => goesOn_advance

private theorem goesOn_nameString : GoesOn nameString := by
  refine .andThen (handled_operand _) fun name => .andThen (handled_operand _) fun value => ?_
  refine .get fun m _ => .andThen (.modify fun _ h => h) fun _ => ?_
  exact .andThen (.modify fun _ h => h) fun _ => goesOn_advance

/-! ## Control flow -/

private theorem goesOn_gotoLabel : GoesOn gotoLabel :=
  .andThen (handled_operand _) fun _ => .andThen (handled_jumpTo _) fun _ => goesOn_stay

private theorem goesOn_callLabel (label : String) : GoesOn (callLabel label) :=
  .get fun _ _ => .andThen (handled_pushFrame _) fun _ =>
    .andThen (handled_jumpTo _) fun _ => goesOn_stay

private theorem handled_leaveCall (frame : CallFrame) : Keeps Handled (leaveCall frame) := by
  obtain ⟨kind, returnTo, params, bookmark⟩ := frame
  cases bookmark with
  | none => cases kind <;> exact .modify fun _ h => h
  | some bookmark =>
    cases kind with
    | rgosub => exact .bind (.modify fun _ h => h) fun _ => .modify fun _ h => h
    | gosub | subroutine | textGosub | pretext => exact .modify fun _ h => h

private theorem goesOn_returnFromCall : GoesOn returnFromCall := by
  refine .get fun m _ => .join (.map _ (handled_operand _)) (.pure none) fun target => ?_
  refine .get fun m _ => .ofExcept_bind fun popped _ => .andThen (.modify fun _ h => h) fun _ => ?_
  cases target with
  | some label => exact .andThen (handled_jumpTo _) fun _ => goesOn_stay
  | none => exact .andThen (handled_leaveCall _) fun _ => goesOn_stay

private theorem goesOn_handlerGosub : GoesOn handlerGosub := by
  refine .andThen (handled_operand _) fun label => .get fun m _ => ?_
  cases m.nesting.bookmark? with
  | some bookmark =>
    exact .andThen (handled_pushFrame _) fun _ => .andThen (handled_jumpTo _) fun _ => goesOn_stay
  | none => exact .andThen (handled_warn _) fun _ => goesOn_callLabel _

private theorem goesOn_openLoop : GoesOn openLoop := by
  refine .andThen handled_readIntTarget fun counter => .andThen (handled_expectToken _) fun _ => ?_
  refine .andThen (handled_operand _) fun start => .andThen (handled_eatKeyword _) fun found => ?_
  refine .ite (fun _ => ?_) fun _ => .fail
  refine .andThen (handled_operand _) fun bound => .andThen (handled_eatKeyword _) fun stepped => ?_
  refine .join (handled_operand _) (.pure 1) fun step => .ite (fun _ => .fail) fun _ => ?_
  refine .andThen (handled_updateStore _) fun _ => .andThen (handled_valueOf _) fun value => ?_
  refine .get fun m _ => .ite (fun _ => ?_) fun _ => ?_
  · refine .ofExcept_bind fun found _ => .andThen (handled_pushFrame _) fun _ => ?_
    exact .andThen (handled_moveTo _) fun _ => goesOn_stay
  · exact .andThen (handled_pushFrame _) fun _ => goesOn_advance

private theorem handled_closeLoop : Keeps Handled closeLoop :=
  .get fun _ _ => .ofExcept_bind fun _ _ => .modify fun _ h => h

private theorem goesOn_loopAgain : GoesOn loopAgain := by
  have hclose : GoesOn (closeLoop >>= fun _ => pure .advance) :=
    .andThen handled_closeLoop fun _ => goesOn_advance
  refine .get fun m _ => .ofExcept_bind fun frame _ => .ite (fun _ => hclose) fun _ => ?_
  refine .andThen (handled_valueOf _) fun value => .andThen (handled_updateStore _) fun _ => ?_
  refine .andThen (handled_valueOf _) fun reached => .ite (fun _ => hclose) fun _ => ?_
  exact .andThen (handled_moveTo _) fun _ => goesOn_stay

private theorem goesOn_breakLoop : GoesOn breakLoop := by
  refine .get fun m _ => .ite (fun _ => ?_) fun _ => .get fun m _ => ?_
  · refine .andThen (handled_operand _) fun label => .get fun m _ => ?_
    have hjump : GoesOn (jumpTo label >>= fun _ => pure .stay) :=
      .andThen (handled_jumpTo _) fun _ => goesOn_stay
    exact .ite (fun _ => .andThen handled_closeLoop fun _ => hjump) fun _ =>
      .andThen (handled_warn _) fun _ => hjump
  · refine .ofExcept_bind fun found _ => .ite (fun _ => ?_) fun _ => ?_
    · refine .ofExcept_bind fun nesting _ => .andThen (.modify fun _ h => h) fun _ => ?_
      exact .andThen (handled_moveTo _) fun _ => goesOn_stay
    · exact .andThen (handled_warn _) fun _ => .andThen (handled_moveTo _) fun _ => goesOn_stay

private theorem handled_readComparisonOf (tokens : List (Bytes × Comparison)) :
    Keeps Handled (readComparisonOf tokens) := by
  induction tokens with
  | nil => exact .pure _
  | cons entry tokens ih =>
    exact .bind (handled_eatToken _) fun _ => .ite (fun _ => .pure _) fun _ => ih

private theorem handled_conditionTerm : Keeps Handled conditionTerm := by
  refine .bind (handled_eatKeyword _) fun files => .ite (fun _ => ?_) fun _ => ?_
  · exact .bind (handled_operand _) fun name => .get fun m _ => .pure _
  refine .bind (handled_eatKeyword _) fun labels => .ite (fun _ => ?_) fun _ => ?_
  · exact .bind (handled_operand _) fun label => .get fun m _ => .pure _
  refine .get fun m _ => .ite (fun _ => ?_) fun _ => ?_
  · refine .bind (handled_operand _) fun lhs => .bind (handled_readComparisonOf _) fun found => ?_
    cases found with
    | none => exact .throw _
    | some comparison => exact .bind (handled_operand _) fun rhs => .pure _
  · refine .bind (handled_operand _) fun lhs => .bind (handled_readComparisonOf _) fun found => ?_
    cases found with
    | none => exact .pure _
    | some comparison => exact .bind (handled_operand _) fun rhs => .pure _

private theorem handled_conditionTail (terms : Nat) (result : Bool) :
    Keeps Handled (conditionTail terms result) := by
  induction terms generalizing result with
  | zero => exact .pure _
  | succ terms ih =>
    refine .bind (handled_eatToken _) fun double =>
      .join (.pure _) (handled_eatToken _) fun joined => ?_
    exact .ite (fun _ => .bind handled_conditionTerm fun term => ih _) fun _ => .pure _

private theorem goesOn_conditional (expected : Bool) : GoesOn (conditional expected) := by
  refine .andThen handled_conditionTerm fun first => .get fun m _ => ?_
  refine .andThen (handled_conditionTail _ _) fun result => ?_
  exact .ite (fun _ => goesOn_stay) fun _ => .pure (by decide)

private theorem goesOn_jumpForward : GoesOn jumpForward := by
  refine .get fun m hm => ?_
  split
  · exact .throw _
  · exact .andThen (.set hm) fun _ => goesOn_stay

private theorem goesOn_jumpBackward : GoesOn jumpBackward := by
  refine .get fun m _ => ?_
  split
  · exact .throw _
  · exact .andThen (handled_moveTo _) fun _ => goesOn_stay

private theorem goesOn_skipLines : GoesOn skipLines := by
  refine .andThen (handled_operand _) fun n => .get fun m _ => .ite (fun _ => ?_) fun _ => ?_
  · exact .andThen (handled_moveTo _) fun _ => goesOn_stay
  · split
    · exact .fail
    · exact .andThen (handled_moveTo _) fun _ => goesOn_stay

private theorem goesOn_startGame : GoesOn startGame :=
  .andThen (handled_jumpTo _) fun _ => goesOn_stay

private theorem goesOn_defineSubroutine : GoesOn defineSubroutine :=
  .andThen (handled_operand _) fun _ => .andThen (.modify fun _ h => h) fun _ => goesOn_advance

/-! What copying an operand keeps: whatever does not depend on the address, on warnings and on the
variables. -/

section Copying

variable {I : Machine → Prop} (hmove : ∀ m pc, I m → I { m with pc })
  (hwarn : ∀ m count journal, I m → I { m with warningCount := count, journal })
  (hstore : ∀ m store, I m → I { m with store })
include hmove

/-- What is done at another address keeps what does not depend on the address. -/
theorem keeps_atAddress_of {addr : Nat} {x : Run α} (hx : Keeps I x) :
    Keeps I (atAddress addr x) := by
  intro m hm
  have hafter := hx (hmove m addr hm)
  cases hrun : x { m with pc := addr } with
  | ok a after =>
    rw [Action.after_of_ok hrun] at hafter
    rw [Action.after_of_ok (atAddress_of_ok hrun)]
    exact hmove _ _ hafter
  | error fault after =>
    rw [Action.after_of_error hrun] at hafter
    rw [Action.after_of_error (atAddress_of_error hrun)]
    exact hmove _ _ hafter

/-- Passing over the letter in front of a target keeps what does not depend on the address. -/
theorem keeps_eatPointer_of : Keeps I eatPointer := by
  have hpass : ∀ (addr : Nat) (pointer : ParamPointer),
      Keeps I (moveTo addr >>= fun _ => pure (some pointer)) :=
    fun _ _ => .bind (.modify fun _ h => hmove _ _ h) fun _ => .pure _
  refine .get fun m _ => .ite (fun _ => ?_) fun _ => .pure _
  exact .ite (fun _ => hpass _ _) fun _ => .ite (fun _ => hpass _ _) fun _ => .pure _

include hwarn hstore

private theorem keeps_readParam_of (pointer : Option ParamPointer) (target : VariableRef) :
    Keeps I (readParam pointer target) := by
  have hread : ∀ {β : Type} (read : Operand.Scope → Operand.Reader β), Keeps I (operand read) :=
    keeps_operand_of hmove hwarn
  have hwrite : ∀ f, Keeps I (updateStore f) := fun _ =>
    .get fun _ _ => .ofExcept_bind fun _ _ => .modify fun _ h => hstore _ _ h
  cases pointer with
  | none => exact .ite (fun _ => .bind (hread _) fun _ => hwrite _) fun _ => .bind (hread _) fun _ => hwrite _
  | some pointer =>
    cases pointer with
    | int =>
      refine .bind (hread _) fun found => ?_
      cases found with
      | int n => exact hwrite _
      | str n | array no indices => exact .throw _
    | str =>
      refine .bind (hread _) fun found => ?_
      cases found with
      | str n => exact hwrite _
      | int n | array no indices => exact .throw _

/-- Reading an operand of the calling statement keeps what an edit and the end of an operand
keep. -/
theorem keeps_readParamIfAny_of (pointer : Option ParamPointer) (target : VariableRef) :
    Keeps I (readParamIfAny pointer target) :=
  .get fun _ _ => .ite (fun _ => .bind (keeps_readParam_of hmove hwarn hstore _ _) fun _ => .pure _)
    fun _ => .pure _

end Copying

private theorem handled_copyParams (targets : Nat) : Keeps Handled (copyParams targets) := by
  induction targets with
  | zero => exact .pure _
  | succ targets ih =>
    refine .get fun m _ => .ite (fun _ => ?_) fun _ => .pure _
    refine .bind (keeps_eatPointer_of fun _ _ h => h) fun pointer => .bind (handled_operand _) fun target => ?_
    refine .guard fun _ => .get fun m _ => ?_
    split
    · exact .throw _
    · have hread : Keeps Handled (readParamIfAny pointer target) :=
        keeps_readParamIfAny_of (fun _ _ h => h) (fun _ _ _ h => h) (fun _ _ h => h) _ _
      refine .bind (keeps_atAddress_of (fun _ _ h => h) hread) fun found => ?_
      exact .doUnless (handled_warn _) (.bind (.modify fun _ h => h) fun _ => ih)

private theorem goesOn_getParams : GoesOn getParams :=
  .get fun _ _ => .andThen (handled_copyParams _) fun _ => goesOn_advance

/-! ## Narration -/

private theorem handled_readText : Keeps Handled readText := by
  refine .get fun m₀ _ => .bind (handled_markRead _) fun seen => .get fun m hm => ?_
  refine .bind (.set hm) fun _ => .ofExcept_bind fun delivery _ => ?_
  refine .bind (handled_warnAll _) fun _ => .bind (.modify fun _ h => h) fun _ => ?_
  refine .ite (fun _ => ?_) fun _ => .get fun m _ => ?_
  · refine .bind (.modify fun _ h => h) fun _ => ?_
    exact .ite (fun _ => .pure _) fun _ => .pure _
  · cases m.textHook with
    | none => exact .pure _
    | some label =>
      exact .bind (handled_pushFrame _) fun _ => .bind (handled_jumpTo _) fun _ => .pure _

private theorem handled_readHook : Keeps Handled readHook :=
  .bind (handled_operand _) fun _ => .get fun _ _ =>
    .bind Keeps.ofExcept.discard fun _ => .pure _

/-- A name that is read for a handler is that of a label. -/
theorem yields_readHook :
    Action.Yields readHook fun name m => ∃ label, m.labels.byName name = .ok label := by
  refine .bind fun name => .look fun m found m' h => ?_
  cases hlabel : m.labels.byName name with
  | error fault =>
    rw [hlabel] at h
    cases h
  | ok label =>
    rw [hlabel] at h
    cases h
    exact ⟨label, hlabel⟩

/-- A label may be attached as a handler. -/
theorem goesOn_attach {attach : String → Machine → Machine}
    (hattach : ∀ name m, Handled m → (∃ label, m.labels.byName name = .ok label) →
      Handled (attach name m)) :
    GoesOn (do
      let name ← readHook
      modify (attach name)
      return .advance) := by
  intro m hm
  have hread := handled_readHook hm
  cases hrun : readHook m with
  | error fault after =>
    rw [Action.after_of_error hrun] at hread
    rw [Action.bind_of_error hrun]
    exact hread
  | ok name after =>
    rw [Action.after_of_ok hrun] at hread
    rw [Action.bind_of_ok hrun]
    exact ⟨hattach name after hread (yields_readHook m name after hrun), by decide⟩

private theorem goesOn_setTextHook : GoesOn setTextHook := by
  refine goesOn_attach fun name m hm hlabel found hfound => ?_
  rcases hfound with htext | hpretext
  · cases htext
    exact hlabel
  · exact hm found (.inr hpretext)

private theorem goesOn_setPretextHook : GoesOn setPretextHook := by
  refine goesOn_attach fun name m hm hlabel found hfound => ?_
  rcases hfound with htext | hpretext
  · exact hm found (.inl htext)
  · cases hpretext
    exact hlabel

private theorem handled_copyFields (targets : Nat) (fields : List Bytes) :
    Keeps Handled (copyFields targets fields) := by
  induction targets generalizing fields with
  | zero => exact .pure _
  | succ targets ih =>
    refine .get fun m _ => .ite (fun _ => .bind (handled_operand _) fun target => ?_) fun _ => .pure _
    exact .join (handled_updateStore _) (handled_updateStore _) fun _ => ih _

private theorem goesOn_getTag : GoesOn getTag :=
  .get fun _ _ => .andThen (handled_copyFields _ _) fun _ => goesOn_advance

private theorem goesOn_chooseClickMarkers : GoesOn chooseClickMarkers := by
  refine .andThen (handled_operand _) fun chars => .get fun m _ => ?_
  have hchoose : GoesOn (do
      modify fun m => { m with style := m.style.setClickMarkers chars m.script.encoding }
      return .advance) := .andThen (.modify fun _ h => h) fun _ => goesOn_advance
  exact .ite (fun _ => .andThen (handled_operand _).discard fun _ => hchoose) fun _ => hchoose

/-! ## Saved games -/

private theorem handled_savePersistent : Keeps Handled savePersistent :=
  keeps_savePersistent_of fun _ _ hm => hm

private theorem handled_saveSlot (slot : Int32) (resume : Nat) (description : Option Bytes) :
    Keeps Handled (saveSlot slot resume description) :=
  keeps_saveSlot_of (fun _ _ hm => hm) slot resume description

/-- A saved game has no handlers of its own. -/
theorem Handled.restore {restored : Machine} {save : Save} (hm : Handled m)
    (h : m.restore save = .ok restored) : Handled restored := by
  obtain ⟨frames, pc, -, -, rfl⟩ := restore_eq_ok h
  exact hm

private theorem handled_loadSlot (slot : Int32) : Keeps Handled (loadSlot slot) := by
  refine .get fun m hm => .ofExcept_bind fun _ _ => ?_
  split
  · exact .throw _
  · exact .ofExcept_bind fun save _ => .ofExcept_bind fun restored h => .set (hm.restore h)

private theorem goesOn_saveGame : GoesOn saveGame := by
  have hsave : ∀ (slot : Int32) (description : Option Bytes), GoesOn (do
      let m ← get
      saveSlot slot (m.statementEnd m.pc) description
      savePersistent
      return .advance) := fun slot description => .get fun m _ =>
    .andThen (handled_saveSlot _ _ _) fun _ => .andThen handled_savePersistent fun _ => goesOn_advance
  refine .andThen (handled_operand _) fun slot => .get fun m _ => .ite (fun _ => ?_) fun _ => ?_
  · exact .andThen (.map _ (handled_operand _)) fun description => hsave slot description
  · exact hsave slot none

private theorem goesOn_loadGame : GoesOn loadGame := by
  refine .andThen (handled_operand _) fun slot => .get fun m _ => .ofExcept_bind fun _ _ => ?_
  refine .ite (fun _ => .andThen (handled_loadSlot _) fun _ => goesOn_stay) fun _ => ?_
  exact .andThen (handled_warn _) fun _ => goesOn_advance

private theorem goesOn_testSlot : GoesOn testSlot := by
  refine .andThen handled_readIntTarget fun target => .andThen (handled_operand _) fun slot => ?_
  refine .get fun m _ => .ofExcept_bind fun _ _ => ?_
  exact .andThen (handled_updateStore _) fun _ => goesOn_advance

/-! ## Steps -/

/-- Only one command asks for a new game, and that one changes nothing by itself. -/
theorem goesOn_execute {command : Command} (h : command ≠ .reset) : GoesOn (execute command) := by
  cases command with
  | mov => exact goesOn_assign
  | add | sub | mul | div | mod => exact goesOn_arithmetic _
  | inc | dec => exact goesOn_increase _
  | cmp => exact goesOn_compareStrings
  | itoa => exact goesOn_integerToString
  | atoi => exact goesOn_stringToInteger
  | len => exact goesOn_stringLength
  | mid => exact goesOn_substring
  | rnd => exact goesOn_randomBelow
  | rnd2 => exact goesOn_randomBetween
  | intlimit => exact goesOn_limitVariable
  | dim => exact goesOn_declareArray
  | numalias => exact goesOn_nameNumber
  | stralias => exact goesOn_nameString
  | goto => exact goesOn_gotoLabel
  | gosub => exact .andThen (handled_operand _) fun _ => goesOn_callLabel _
  | returnCall => exact goesOn_returnFromCall
  | rgosub => exact goesOn_handlerGosub
  | forLoop => exact goesOn_openLoop
  | next => exact goesOn_loopAgain
  | breakLoop => exact goesOn_breakLoop
  | ifHolds | notIf => exact goesOn_conditional _
  | jumpf => exact goesOn_jumpForward
  | jumpb => exact goesOn_jumpBackward
  | skip => exact goesOn_skipLines
  | endScript => exact .pure (by decide)
  | reset => exact absurd rfl h
  | game => exact goesOn_startGame
  | defsub => exact goesOn_defineSubroutine
  | getparam => exact goesOn_getParams
  | textgosub => exact goesOn_setTextHook
  | pretextgosub => exact goesOn_setPretextHook
  | gettag => exact goesOn_getTag
  | clickstr => exact goesOn_chooseClickMarkers
  | labellog | filelog | globalon | kidokuskip =>
    exact .andThen (.modify fun _ h => h) fun _ => goesOn_advance
  | savegame => exact goesOn_saveGame
  | loadgame => exact goesOn_loadGame
  | savefileexist => exact goesOn_testSlot

private theorem handled_execute (command : Command) : Keeps Handled (execute command) := by
  by_cases hreset : command = .reset
  · subst hreset
    exact .pure _
  · exact (goesOn_execute hreset).keeps

private theorem handled_finishProgram : Keeps Handled finishProgram :=
  .get fun _ _ => .ite (fun _ => .pure _) fun _ =>
    .bind (.modify fun _ h => h) fun _ => handled_savePersistent

private theorem handled_complete (outcome : Outcome) : Keeps Handled (complete outcome) := by
  cases outcome with
  | advance =>
    exact .bind (keeps_endStatement_of (fun _ _ h => h) fun _ _ _ h => h) fun _ => .pure _
  | skipLine => exact .bind (.modify fun _ h => h) fun _ => .pure _
  | stay => exact .pure _
  | restart =>
    exact .bind (.bind (.modify fun _ h => h) fun _ => handled_jumpTo _) fun _ => .pure _
  | stop => exact .bind handled_finishProgram fun _ => .pure _

private theorem handled_runCommand (start operands : Nat) (word : CommandWord) :
    Keeps Handled (runCommand start operands word) := by
  refine .bind (.modify fun _ h => h) fun _ => .get fun m _ => ?_
  cases m.commands.resolve word with
  | builtin command =>
    refine .bind (handled_markRead _).discard fun _ => .bind (handled_moveTo _) fun _ => ?_
    exact .bind (handled_execute command) fun outcome => handled_complete outcome
  | subroutine label =>
    refine .bind (handled_markRead _).discard fun _ => .get fun m _ => ?_
    exact .bind (handled_pushFrame _) fun _ => .bind (handled_jumpTo _) fun _ => .pure _
  | host name =>
    exact .bind (handled_markRead _).discard fun _ => .bind (.modify fun _ h => h) fun _ => .pure _
  | unknown =>
    exact .ite (fun _ => .throw _) fun _ => .bind (.modify fun _ h => h) fun _ => handled_readText

private theorem handled_runTag (start next : Nat) (tag : Bytes) :
    Keeps Handled (runTag start next tag) := by
  refine .bind (handled_markRead _).discard fun _ => .bind (.modify fun _ h => h) fun _ => ?_
  refine .get fun m _ => ?_
  cases m.pretextHook with
  | some label =>
    exact .bind (handled_pushFrame _) fun _ => .bind (handled_jumpTo _) fun _ => .pure _
  | none => exact .bind (.modify fun _ h => h) fun _ => .pure _

private theorem handled_runStatement : Keeps Handled runStatement := by
  refine .get fun m hm => .bind (.set hm) fun _ => .bind (handled_warnAll _) fun _ => ?_
  cases (m.script.statementAt m.pc m.pretextHook.isSome).kind with
  | endOfScript => exact .bind handled_finishProgram fun _ => .pure _
  | comment | endOfLine => exact .bind (handled_moveTo _) fun _ => .pure _
  | sectionMarker | label name => exact .bind (.modify fun _ h => h) fun _ => .pure _
  | pretextTag tag => exact handled_runTag _ _ _
  | command word => exact handled_runCommand _ _ _
  | text => exact .bind (.modify fun _ h => h) fun _ => handled_readText

private theorem handled_finishCommand (outcome : Outcome) : Keeps Handled (finishCommand outcome) :=
  .get fun _ _ => .ite (fun _ => .bind (.modify fun _ h => h) fun _ =>
    keeps_located (handled_complete outcome)) fun _ => .throw _

private theorem handled_stepSettled : Keeps Handled stepSettled :=
  .get fun _ _ => .ite (fun _ => .pure _) fun _ =>
    .ite (fun _ => keeps_located handled_readText) fun _ => keeps_located handled_runStatement

private theorem handled_step : Keeps Handled step := by
  intro m hm
  cases hsettled : m.settled? with
  | none =>
    rw [after_step_of_not_settled hsettled]
    exact handled_finishCommand .advance hm
  | some settled =>
    rw [after_step_of_settled? hsettled]
    exact handled_stepSettled (of_settled? (fun _ _ h => h) (fun _ _ _ h => h) hm hsettled)

private theorem handled_perform (call : HostCall) : Keeps Handled call.perform := by
  have hreply : ∀ {β : Type} {x : Run β} {f : β → Reply}, Keeps Handled x →
      Keeps Handled (do return f (← unlocated x)) :=
    fun hx => .bind (keeps_unlocated hx) fun _ => .pure _
  cases call with
  | step => exact .bind handled_step fun _ => .pure _
  | finish outcome => exact .bind (handled_finishCommand outcome) fun _ => .pure _
  | readInt | readStr | readLabel | readVarRef => exact hreply (handled_operand _)
  | skipOperands => exact .bind (.modify fun _ h => h) fun _ => .pure _
  | eatKeyword word => exact hreply (handled_eatKeyword _)
  | eatToken token => exact hreply (handled_eatToken _)
  | startAt name => exact hreply (handled_jumpTo _)
  | registerHost name | recordFile name => exact .bind (.modify fun _ h => h) fun _ => .pure _
  | edit change => exact hreply (handled_updateStore _)
  | savePersistent => exact hreply handled_savePersistent
  | saveSlot slot resume description => exact hreply (handled_saveSlot _ _ _)
  | loadSlot slot => exact hreply (handled_loadSlot _)
  | restore save =>
    exact hreply (.get fun _ hm => .ofExcept_bind fun _ h => .set (hm.restore h))

/-- **The handlers of a machine that can be reached are labels.** -/
theorem Reachable.handled (h : Reachable m) : Handled m := by
  induction h with
  | load h =>
    obtain ⟨labelLog, fileLog, store, -, -, -, rfl⟩ := loadPersistent_eq_ok h
    rintro name (⟨⟨⟩⟩ | ⟨⟨⟩⟩)
  | serve h call ih =>
    rw [serve_snd]
    exact handled_perform call ih

end NovelScript.Machine
