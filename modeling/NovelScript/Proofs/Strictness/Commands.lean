import NovelScript.Proofs.Machine.Commands
import NovelScript.Proofs.Machine.Host
import NovelScript.Proofs.Strictness.Rules

/-!
# Commands on lenient and strict machines

Every command does the same on a lenient machine and on the tightened one, unless it gives a warning
or leaves too much open. Commands that open nothing are oblivious of the cap; only calls out of the
script, handlers and loops look at it.
-/

namespace NovelScript.Machine

variable {α : Type} {cap : Nat} {m : Machine}

/-! ## The small actions -/

private theorem oblivious_ofExcept (result : Except Fault α) :
    Oblivious cap (Action.ofExcept result) := by
  cases result with
  | ok a => exact .pure a
  | error fault => exact .throw fault

/-- A warning is where strict mode differs, so nothing needs to be said about what comes after. -/
theorem oblivious_warn (warning : Warning) : Oblivious cap (warn warning) := by
  intro m hm
  have hrun : warn warning m = .ok () { m with
      warningCount := m.warningCount + 1
      journal := m.journal ++ [Notice.warning warning m.location.label m.location.line] } := by
    show (if m.settings.strict = true then _ else _ : Run Unit) m = _
    rw [if_neg (by simp [hm.strict])]
    rfl
  have hafter := Action.after_of_ok hrun
  refine ⟨?_, ?_, ?_⟩
  · rw [hafter]
    exact ⟨hm.strict, hm.cap⟩
  · rw [hafter]
    exact Nat.le_succ _
  · rw [hafter]
    intro hw
    exact absurd hw (Nat.succ_ne_self _)

/-- Giving warnings opens nothing. -/
theorem oblivious_warnAll (warnings : List Warning) : Oblivious cap (warnAll warnings) := by
  induction warnings with
  | nil => exact .pure ()
  | cons warning warnings ih => exact .bind (oblivious_warn warning) fun _ => ih

/-- Moving the cursor opens nothing. -/
theorem oblivious_moveTo (addr : Nat) : Oblivious cap (moveTo addr) :=
  .modify fun _ => ⟨rfl, rfl, rfl, rfl⟩

/-- Jumping to a label opens nothing. -/
theorem oblivious_jumpTo (name : String) : Oblivious cap (jumpTo name) :=
  .get (fun _ => rfl) fun _ => .bind (oblivious_ofExcept _) fun _ =>
    .modify fun _ => ⟨rfl, rfl, rfl, rfl⟩

private theorem oblivious_resumeText (bookmark : Bookmark) : Oblivious cap (resumeText bookmark) :=
  .modify fun _ => ⟨rfl, rfl, rfl, rfl⟩

private theorem oblivious_note (notices : List Notice) : Oblivious cap (note notices) :=
  .modify fun _ => ⟨rfl, rfl, rfl, rfl⟩

/-- Changing the store opens nothing. -/
theorem oblivious_updateStore (f : Store → Except Fault Store) :
    Oblivious cap (updateStore f) :=
  .get (fun _ => rfl) fun _ => .bind (oblivious_ofExcept _) fun _ =>
    .modify fun _ => ⟨rfl, rfl, rfl, rfl⟩

/-- Marking an address as read opens nothing. -/
theorem oblivious_markRead (addr : Nat) : Oblivious cap (markRead addr) := by
  intro m hm
  refine Follows.get ?_
  show Follows cap _ (if m.settings.trackRead = true then _ else _)
    (if m.settings.trackRead = true then _ else _) m
  split
  · refine Follows.seq (Follows.set hm ?_) (fun _ h => h) fun _ _ _ hm' =>
      ⟨Follows.pure hm' _, fun h => h⟩
    exact ⟨rfl, rfl, rfl, rfl⟩
  · exact Follows.pure hm false

/-- An opening meets the cap if what it leaves is within it. -/
theorem capped_pushFrame (frame : Frame) : Capped cap (pushFrame frame) := by
  intro m hm
  have hpush : m.nesting.push frame =
      .ok { frames := frame :: m.nesting.frames, cap := m.nesting.cap } := by
    simp only [Nesting.push, hm.cap]
  have hrun : pushFrame frame m = .ok ()
      { m with nesting := { frames := frame :: m.nesting.frames, cap := m.nesting.cap } } := by
    show (Action.ofExcept (m.nesting.push frame) >>= fun nesting =>
      modify fun m => { m with nesting }) m = _
    rw [hpush]
    rfl
  have hafter := Action.after_of_ok hrun
  refine ⟨?_, ?_, ?_⟩
  · rw [hafter]
    exact ⟨hm.strict, hm.cap⟩
  · exact Nat.le_of_eq (congrArg Machine.warningCount hafter).symm
  · rw [hafter, hrun]
    intro _ hwithin
    have hroom : ¬ cap ≤ m.nesting.depth := Nat.not_le.mpr hwithin
    have htight : (m.tighten cap).nesting.push frame =
        .ok { frames := frame :: m.nesting.frames, cap := some cap } := by
      show (if cap ≤ m.nesting.depth then _ else _) = _
      rw [if_neg hroom]
      rfl
    show (Action.ofExcept ((m.tighten cap).nesting.push frame) >>= fun nesting =>
      modify fun m => { m with nesting }) (m.tighten cap) = _
    rw [htight]
    rfl

/-! ## Operands -/

/-- Reading an operand opens nothing. -/
theorem oblivious_operand (read : Operand.Scope → Operand.Reader α) :
    Oblivious cap (operand read) := by
  refine .get (fun _ => rfl) fun m => ?_
  cases (read m.scope).run { pos := m.cursor } with
  | ok value after =>
    exact .bind (oblivious_warnAll _) fun _ => .bind (oblivious_moveTo _) fun _ =>
      .pure value
  | error fault after =>
    exact .bind (oblivious_warnAll _) fun _ => .throw fault

private theorem oblivious_readIntTarget : Oblivious cap readIntTarget :=
  .bind (oblivious_operand _) fun target => .guard (.pure target)

private theorem oblivious_readStrTarget : Oblivious cap readStrTarget := by
  refine .bind (oblivious_operand _) fun target => ?_
  cases target with
  | str n => exact .pure n
  | int n => exact .throw _
  | array no indices => exact .throw _

/-- Taking an optional keyword opens nothing. -/
theorem oblivious_eatKeyword (word : String) : Oblivious cap (eatKeyword word) := by
  refine .get (fun _ => rfl) fun m => ?_
  cases m.script.keyword? word (m.script.skipBlanks m.cursor) with
  | some after => exact .bind (oblivious_moveTo _) fun _ => .pure true
  | none => exact .pure false

/-- Taking an optional token opens nothing. -/
theorem oblivious_eatToken (token : Bytes) : Oblivious cap (eatToken token) :=
  .get (fun _ => rfl) fun _ => .ite
    (.bind (oblivious_moveTo _) fun _ => .pure true) (.pure false)

private theorem oblivious_expectToken (token : String) : Oblivious cap (expectToken token) :=
  .bind (oblivious_eatToken _) fun _ =>
    .ite (.pure ()) (.throw _)

/-! ## Variables -/

private theorem oblivious_setStr (n : Nat) (value : Bytes) : Oblivious cap (setStr n value) :=
  .modify fun _ => ⟨rfl, rfl, rfl, rfl⟩

private theorem oblivious_valueOf (target : VariableRef) : Oblivious cap (valueOf target) :=
  .get (fun _ => rfl) fun _ => oblivious_ofExcept _

private theorem oblivious_assign : Oblivious cap assign := by
  refine .bind (oblivious_operand _) fun target => ?_
  refine .bind (oblivious_eatToken _).discard fun _ => .ite ?_ ?_
  · exact .bind (oblivious_operand _) fun _ =>
      .bind (oblivious_updateStore _) fun _ => .pure _
  · refine .get (fun _ => rfl) fun _ => .ite .fail ?_
    exact .bind (oblivious_operand _) fun _ =>
      .bind (oblivious_updateStore _) fun _ => .pure _

private theorem oblivious_arithmetic (op : Operator) : Oblivious cap (arithmetic op) := by
  have hnumber : ∀ target, Oblivious cap (do
      let rhs ← readInt
      let lhs ← valueOf target
      let value ← Action.ofExcept (op.apply lhs rhs)
      writeInt target value
      return Outcome.advance) := fun target =>
    .bind (oblivious_operand _) fun _ => .bind (oblivious_valueOf _) fun _ =>
      .bind (oblivious_ofExcept _) fun _ =>
        .bind (oblivious_updateStore _) fun _ => .pure _
  refine .bind (oblivious_operand _) fun target => ?_
  cases target with
  | str n =>
    refine .guard (.get (fun _ => rfl) fun _ => ?_)
    exact .bind (oblivious_operand _) fun _ =>
      .bind (oblivious_setStr _ _) fun _ => .pure _
  | int n => exact hnumber _
  | array no indices => exact hnumber _

private theorem oblivious_increase (amount : Int32) : Oblivious cap (increase amount) := by
  refine .bind oblivious_readIntTarget fun target => .bind (oblivious_valueOf _) fun value => ?_
  exact .bind (oblivious_updateStore _) fun _ => .pure _

private theorem oblivious_compareStrings : Oblivious cap compareStrings := by
  refine .bind oblivious_readIntTarget fun target => .bind (oblivious_operand _) fun a => ?_
  exact .bind (oblivious_operand _) fun b => .bind (oblivious_updateStore _) fun _ => .pure _

private theorem oblivious_integerToString : Oblivious cap integerToString := by
  refine .bind oblivious_readStrTarget fun n => .bind (oblivious_operand _) fun value => ?_
  exact .bind (oblivious_setStr _ _) fun _ => .pure _

private theorem oblivious_stringToInteger : Oblivious cap stringToInteger := by
  refine .bind oblivious_readIntTarget fun target => .bind (oblivious_operand _) fun text => ?_
  exact .bind (oblivious_updateStore _) fun _ => .pure _

private theorem oblivious_stringLength : Oblivious cap stringLength := by
  refine .bind oblivious_readIntTarget fun target => .bind (oblivious_operand _) fun text => ?_
  exact .bind (oblivious_updateStore _) fun _ => .pure _

private theorem oblivious_substring : Oblivious cap substring := by
  refine .bind oblivious_readStrTarget fun n => .bind (oblivious_operand _) fun text => ?_
  refine .bind (oblivious_operand _) fun start => .bind (oblivious_operand _) fun count => ?_
  exact .get (fun _ => rfl) fun _ => .bind (oblivious_setStr _ _) fun _ => .pure _

private theorem oblivious_randomBelow : Oblivious cap randomBelow := by
  refine .bind oblivious_readIntTarget fun target => .bind (oblivious_operand _) fun upper => ?_
  refine .get (fun _ => rfl) fun m => .bind (.modify fun _ => ⟨rfl, rfl, rfl, rfl⟩) fun _ => ?_
  exact .bind (oblivious_updateStore _) fun _ => .pure _

private theorem oblivious_randomBetween : Oblivious cap randomBetween := by
  refine .bind oblivious_readIntTarget fun target => .bind (oblivious_operand _) fun lower => ?_
  refine .bind (oblivious_operand _) fun upper => .get (fun _ => rfl) fun m => ?_
  refine .bind (.modify fun _ => ⟨rfl, rfl, rfl, rfl⟩) fun _ => ?_
  exact .bind (oblivious_updateStore _) fun _ => .pure _

private theorem oblivious_limitVariable : Oblivious cap limitVariable := by
  refine .bind (oblivious_eatToken _).discard fun _ => .bind (oblivious_operand _) fun n => ?_
  refine .bind (oblivious_operand _) fun lower => .bind (oblivious_operand _) fun upper => ?_
  refine .bind (oblivious_ofExcept _) fun slot => ?_
  exact .bind (oblivious_updateStore _) fun _ => .pure _

private theorem oblivious_declareArray : Oblivious cap declareArray := by
  refine .bind (oblivious_operand _) fun target => ?_
  cases target with
  | array no dims => exact .bind (oblivious_updateStore _) fun _ => .pure _
  | int n => exact .fail
  | str n => exact .fail

private theorem oblivious_nameNumber : Oblivious cap nameNumber := by
  refine .bind (oblivious_operand _) fun name => .bind (oblivious_operand _) fun value => ?_
  refine .get (fun _ => rfl) fun m => .bind (.modify fun _ => ⟨rfl, rfl, rfl, rfl⟩) fun _ => ?_
  exact .bind (oblivious_note _) fun _ => .pure _

private theorem oblivious_nameString : Oblivious cap nameString := by
  refine .bind (oblivious_operand _) fun name => .bind (oblivious_operand _) fun value => ?_
  refine .get (fun _ => rfl) fun m => .bind (.modify fun _ => ⟨rfl, rfl, rfl, rfl⟩) fun _ => ?_
  exact .bind (oblivious_note _) fun _ => .pure _

/-! ## Control flow -/

/-- Moving the cursor leaves open what is open. -/
theorem level_moveTo (addr : Nat) : Level (moveTo addr) := fun _ => .modify fun _ h => h

private theorem level_jumpTo (name : String) : Level (jumpTo name) := fun _ =>
  .get fun _ _ => .ofExcept_bind fun _ _ => .modify fun _ h => h

/-- An opening and a jump to a label. -/
theorem capped_pushFrame_jumpTo (frame : Frame) (label : String) (a : α) :
    Capped cap (do
      pushFrame frame
      jumpTo label
      return a) :=
  .before (capped_pushFrame frame) fun _ _ _ _ =>
    ⟨.bind (oblivious_jumpTo label) fun _ => .pure a,
      fun depth => .bind (level_jumpTo label depth) fun _ => .pure a⟩

private theorem oblivious_gotoLabel : Oblivious cap gotoLabel :=
  .bind (oblivious_operand _) fun _ => .bind (oblivious_jumpTo _) fun _ => .pure _

private theorem capped_callLabel (label : String) : Capped cap (callLabel label) :=
  .get (fun _ => rfl) fun _ => capped_pushFrame_jumpTo _ _ _

private theorem capped_gosub : Capped cap gosub :=
  .after (oblivious_operand _) fun _ => capped_callLabel _

private theorem oblivious_leaveCall (frame : CallFrame) : Oblivious cap (leaveCall frame) := by
  unfold leaveCall
  split
  · exact oblivious_resumeText _
  · exact oblivious_resumeText _
  · refine .bind (.modify fun m => ⟨?_, rfl, Nesting.cap_unwindHandler, rfl⟩) fun _ =>
      oblivious_resumeText _
    simp only [tighten, Nesting.unwindHandler_withCap]
  · exact .modify fun _ => ⟨rfl, rfl, rfl, rfl⟩

private theorem oblivious_returnFromCall : Oblivious cap returnFromCall := by
  refine .get (fun _ => rfl) fun m => .join ((oblivious_operand _).map _) (.pure none) ?_
  intro target m hm
  refine Follows.get (Follows.ofExcept _ (Nesting.popCall_withCap _ _) hm ?_)
  rintro ⟨frame, rest⟩ hpop
  refine Follows.bind (Follows.modify hm ⟨rfl, rfl, Nesting.cap_of_popCall hpop, rfl⟩) ?_
  intro _ m' _ hm'
  cases target with
  | none => exact Oblivious.bind (oblivious_leaveCall frame) (fun _ => .pure _) hm'
  | some label => exact Oblivious.bind (oblivious_jumpTo label) (fun _ => .pure _) hm'

private theorem capped_handlerGosub : Capped cap handlerGosub := by
  refine .after (oblivious_operand _) fun label => .get (fun _ => rfl) fun m => ?_
  cases m.nesting.bookmark? with
  | some bookmark => exact capped_pushFrame_jumpTo _ _ _
  | none => exact .after (oblivious_warn _) fun _ => capped_callLabel label

private theorem capped_openLoop : Capped cap openLoop := by
  refine .after oblivious_readIntTarget fun counter => ?_
  refine .after (oblivious_expectToken _) fun _ => .after (oblivious_operand _) fun start => ?_
  refine .after (oblivious_eatKeyword _) fun _ => .ite ?_ Oblivious.fail.capped
  refine .after (oblivious_operand _) fun bound => .after (oblivious_eatKeyword _) fun _ => ?_
  refine .join (oblivious_operand _) (.pure 1) fun step => .guard ?_
  refine .after (oblivious_updateStore _) fun _ => .after (oblivious_valueOf _) fun value => ?_
  refine .get (fun _ => rfl) fun m => .ite ?_ ?_
  · refine .after (oblivious_ofExcept _) fun found => .before (capped_pushFrame _) fun _ _ _ _ => ?_
    exact ⟨.bind (oblivious_moveTo _) fun _ => .pure _,
      fun depth => .bind (level_moveTo _ depth) fun _ => .pure _⟩
  · exact .before (capped_pushFrame _) fun _ _ _ _ => ⟨.pure _, fun _ => .pure _⟩

private theorem oblivious_closeLoop : Oblivious cap closeLoop := by
  intro m hm
  refine Follows.get (Follows.ofExcept _ (Nesting.popLoop_withCap _ _) hm ?_)
  rintro ⟨frame, rest⟩ hpop
  exact Follows.modify hm ⟨rfl, rfl, Nesting.cap_of_popLoop hpop, rfl⟩

private theorem oblivious_loopAgain : Oblivious cap loopAgain := by
  refine .get (fun _ => rfl) fun m => .bind (oblivious_ofExcept _) fun frame => ?_
  refine .ite (.bind oblivious_closeLoop fun _ => .pure _) ?_
  refine .bind (oblivious_valueOf _) fun value => .bind (oblivious_updateStore _) fun _ => ?_
  refine .bind (oblivious_valueOf _) fun reached => .ite ?_ ?_
  · exact .bind oblivious_closeLoop fun _ => .pure _
  · exact .bind (oblivious_moveTo _) fun _ => .pure _

private theorem oblivious_breakLoop : Oblivious cap breakLoop := by
  intro m hm
  refine Follows.get ?_
  show Follows cap _ (if m.hasMore = true then _ else _) (if m.hasMore = true then _ else _) m
  split
  · refine Oblivious.bind (oblivious_operand _) (fun label => ?_) hm
    refine .get (fun _ => rfl) fun m => .join oblivious_closeLoop (oblivious_warn _) fun _ => ?_
    exact .bind (oblivious_jumpTo label) fun _ => .pure _
  · refine Follows.get (Follows.ofExcept id ?_ hm fun found _ => ?_)
    · show m.script.loopEnd (m.statementEnd m.pc) = (m.script.loopEnd (m.statementEnd m.pc)).map id
      cases m.script.loopEnd (m.statementEnd m.pc) <;> rfl
    show Follows cap _ (if m.nesting.topIsLoop = true then _ else _)
      (if m.nesting.topIsLoop = true then _ else _) m
    split
    · refine Follows.ofExcept _ (Nesting.finishLoop_withCap _ _) hm fun rest hfinish => ?_
      refine Follows.bind (Follows.modify hm ⟨rfl, rfl, Nesting.cap_of_finishLoop hfinish, rfl⟩) ?_
      intro _ m' _ hm'
      exact Oblivious.bind (oblivious_moveTo _) (fun _ => .pure _) hm'
    · exact Oblivious.bind (oblivious_warn _)
        (fun _ => .bind (oblivious_moveTo _) fun _ => .pure _) hm

private theorem oblivious_readComparisonOf (tokens : List (Bytes × Comparison)) :
    Oblivious cap (readComparisonOf tokens) := by
  induction tokens with
  | nil => exact .pure none
  | cons token rest ih => exact .bind (oblivious_eatToken _) fun _ => .ite (.pure _) ih

private theorem oblivious_conditionTerm : Oblivious cap conditionTerm := by
  refine .bind (oblivious_eatKeyword _) fun _ => .ite ?_ ?_
  · exact .bind (oblivious_operand _) fun _ => .get (fun _ => rfl) fun _ => .pure _
  refine .bind (oblivious_eatKeyword _) fun _ => .ite ?_ ?_
  · exact .bind (oblivious_operand _) fun _ => .get (fun _ => rfl) fun _ => .pure _
  refine .get (fun _ => rfl) fun m => .ite ?_ ?_
  · refine .bind (oblivious_operand _) fun lhs => .bind (oblivious_readComparisonOf _) fun found => ?_
    cases found with
    | none => exact .throw _
    | some comparison => exact .bind (oblivious_operand _) fun _ => .pure _
  · refine .bind (oblivious_operand _) fun lhs => .bind (oblivious_readComparisonOf _) fun found => ?_
    cases found with
    | none => exact .pure _
    | some comparison => exact .bind (oblivious_operand _) fun _ => .pure _

private theorem oblivious_conditionTail (terms : Nat) (result : Bool) :
    Oblivious cap (conditionTail terms result) := by
  induction terms generalizing result with
  | zero => exact .pure result
  | succ terms ih =>
    refine .bind (oblivious_eatToken _) fun double => ?_
    refine .join (.pure true) (oblivious_eatToken _) fun joined => .ite ?_ (.pure result)
    exact .bind oblivious_conditionTerm fun term => ih _

private theorem oblivious_conditional (expected : Bool) : Oblivious cap (conditional expected) := by
  refine .bind oblivious_conditionTerm fun first => .get (fun _ => rfl) fun m => ?_
  exact .bind (oblivious_conditionTail _ _) fun _ => .ite (.pure _) (.pure _)

private theorem oblivious_jumpForward : Oblivious cap jumpForward := by
  intro m hm
  refine Follows.get ?_
  have hscript : (m.tighten cap).script = m.script := rfl
  have hcursor : (m.tighten cap).cursor = m.cursor := rfl
  simp only [hscript, hcursor]
  cases m.script.sectionAfter? m.cursor with
  | none => exact Follows.throw hm _
  | some target =>
    exact Follows.bind (Follows.set hm ⟨rfl, rfl, rfl, rfl⟩) fun _ _ _ hm' => Follows.pure hm' _

private theorem oblivious_jumpBackward : Oblivious cap jumpBackward := by
  refine .get (fun _ => rfl) fun m => ?_
  cases m.lastSection with
  | none => exact .throw _
  | some target => exact .bind (oblivious_moveTo _) fun _ => .pure _

private theorem oblivious_skipLines : Oblivious cap skipLines := by
  refine .bind (oblivious_operand _) fun n => .get (fun _ => rfl) fun m => .ite ?_ ?_
  · exact .bind (oblivious_moveTo _) fun _ => .pure _
  · cases m.script.linesUp? n.toInt.natAbs (m.script.lineStart m.pc) with
    | none => exact .fail
    | some target => exact .bind (oblivious_moveTo _) fun _ => .pure _

private theorem oblivious_startGame : Oblivious cap startGame :=
  .bind (oblivious_jumpTo _) fun _ => .pure _

private theorem oblivious_defineSubroutine : Oblivious cap defineSubroutine :=
  .bind (oblivious_operand _) fun _ =>
    .bind (.modify fun _ => ⟨rfl, rfl, rfl, rfl⟩) fun _ => .pure _

private theorem after_atAddress (addr : Nat) (action : Run α) (m : Machine) :
    Action.after (atAddress addr action) m =
      { Action.after action { m with pc := addr } with pc := m.pc } := by
  simp only [Action.after, atAddress]
  cases action { m with pc := addr } <;> rfl

private theorem oblivious_atAddress (addr : Nat) {action : Run α} (h : Oblivious cap action) :
    Oblivious cap (atAddress addr action) := by
  intro m hm
  have hthere : Follows cap (fun _ => True) action action { m with pc := addr } :=
    h ⟨hm.strict, hm.cap⟩
  refine ⟨?_, ?_, ?_⟩ <;> rw [after_atAddress]
  · exact ⟨hthere.lenient.strict, hthere.lenient.cap⟩
  · exact hthere.warnings
  · intro hw _
    have hy := hthere.agrees hw trivial
    have hthere : action { m.tighten cap with pc := addr } =
        tightenResult cap (action { m with pc := addr }) := hy
    simp only [atAddress, hthere]
    cases action { m with pc := addr } <;> rfl

private theorem oblivious_eatPointer : Oblivious cap eatPointer := by
  refine .get (fun _ => rfl) fun m => .ite (.ite ?_ (.ite ?_ (.pure none))) (.pure none)
  · exact .bind (oblivious_moveTo _) fun _ => .pure _
  · exact .bind (oblivious_moveTo _) fun _ => .pure _

private theorem oblivious_readParam (pointer : Option ParamPointer) (target : VariableRef) :
    Oblivious cap (readParam pointer target) := by
  unfold readParam
  cases pointer with
  | none =>
    exact .ite (.bind (oblivious_operand _) fun _ => oblivious_updateStore _)
      (.bind (oblivious_operand _) fun _ => oblivious_updateStore _)
  | some kind =>
    cases kind with
    | int =>
      refine .bind (oblivious_operand _) fun other => ?_
      cases other with
      | int n => exact oblivious_updateStore _
      | str n => exact .throw _
      | array no indices => exact .throw _
    | str =>
      refine .bind (oblivious_operand _) fun other => ?_
      cases other with
      | str n => exact oblivious_updateStore _
      | int n => exact .throw _
      | array no indices => exact .throw _

private theorem oblivious_readParamIfAny (pointer : Option ParamPointer) (target : VariableRef) :
    Oblivious cap (readParamIfAny pointer target) :=
  .get (fun _ => rfl) fun _ =>
    .ite (.bind (oblivious_readParam _ _) fun _ => .pure true) (.pure false)

private theorem oblivious_copyParams (targets : Nat) : Oblivious cap (copyParams targets) := by
  induction targets with
  | zero => exact .pure ()
  | succ targets ih =>
    refine .get (fun _ => rfl) fun m => .ite ?_ (.pure ())
    refine .bind oblivious_eatPointer fun pointer => .bind (oblivious_operand _) fun target => ?_
    refine .guard (.get (fun _ => rfl) fun m => ?_)
    cases m.nesting.params? with
    | none => exact .throw _
    | some params =>
      refine .bind (oblivious_atAddress _ (oblivious_readParamIfAny _ _)) fun found => ?_
      refine .doUnless (oblivious_warn _) ?_
      exact .bind (.modify fun _ => ⟨rfl, rfl, rfl, rfl⟩) fun _ => ih

private theorem oblivious_getParams : Oblivious cap getParams :=
  .get (fun _ => rfl) fun _ => .bind (oblivious_copyParams _) fun _ => .pure _

/-! ## Narration -/

/-- Reading text opens at most the call of the text hook. -/
theorem capped_readText : Capped cap readText := by
  refine .get (fun _ => rfl) fun m => .after (oblivious_markRead _) fun seen => ?_
  intro m hm
  refine Follows.get ?_
  refine Follows.seq (C := fun _ => True) (Follows.set hm ?_) (fun _ _ => trivial)
    fun _ m' _ hm' => ⟨?_, fun _ => trivial⟩
  · exact ⟨rfl, rfl, rfl, rfl⟩
  refine (show Capped cap _ from ?_) hm'
  refine .after (oblivious_ofExcept _) fun delivery => .after (oblivious_warnAll _) fun _ => ?_
  refine .after (.modify fun _ => ⟨rfl, rfl, rfl, rfl⟩) fun _ => .ite ?_ ?_
  · refine .after (.modify fun _ => ⟨rfl, rfl, rfl, rfl⟩) fun _ => ?_
    exact .ite (Oblivious.pure _).capped (Oblivious.pure _).capped
  · refine .get (fun _ => rfl) fun m => ?_
    cases m.textHook with
    | none => exact (Oblivious.pure _).capped
    | some label => exact capped_pushFrame_jumpTo _ _ _

private theorem oblivious_readHook : Oblivious cap readHook :=
  .bind (oblivious_operand _) fun _ => .get (fun _ => rfl) fun _ =>
    .bind (oblivious_ofExcept _).discard fun _ => .pure _

private theorem oblivious_setTextHook : Oblivious cap setTextHook :=
  .bind oblivious_readHook fun _ => .bind (.modify fun _ => ⟨rfl, rfl, rfl, rfl⟩) fun _ => .pure _

private theorem oblivious_setPretextHook : Oblivious cap setPretextHook :=
  .bind oblivious_readHook fun _ => .bind (.modify fun _ => ⟨rfl, rfl, rfl, rfl⟩) fun _ => .pure _

private theorem oblivious_copyFields (targets : Nat) (fields : List Bytes) :
    Oblivious cap (copyFields targets fields) := by
  induction targets generalizing fields with
  | zero => exact .pure ()
  | succ targets ih =>
    refine .get (fun _ => rfl) fun m => .ite ?_ (.pure ())
    refine .bind (oblivious_operand _) fun target => ?_
    exact .join (oblivious_updateStore _) (oblivious_updateStore _) fun _ => ih _

private theorem oblivious_getTag : Oblivious cap getTag :=
  .get (fun _ => rfl) fun _ => .bind (oblivious_copyFields _ _) fun _ => .pure _

private theorem oblivious_chooseClickMarkers : Oblivious cap chooseClickMarkers := by
  refine .bind (oblivious_operand _) fun chars => .get (fun _ => rfl) fun m => ?_
  refine .doIf (oblivious_operand _).discard ?_
  exact .bind (.modify fun _ => ⟨rfl, rfl, rfl, rfl⟩) fun _ => .pure _

/-! ## Saves and persistent files -/

private theorem oblivious_writeSaved (name : String) (bytes : Bytes) :
    Oblivious cap (writeSaved name bytes) := by
  refine .get (fun _ => rfl) fun m => .bind (.modify fun _ => ⟨rfl, rfl, rfl, rfl⟩) fun _ => ?_
  cases m.saves.refusals name 0 with
  | none => exact .pure _
  | some failure => exact .throw _

/-- Saving the persistent data opens nothing. -/
theorem oblivious_savePersistent : Oblivious cap savePersistent := by
  refine .get (fun _ => rfl) fun m => ?_
  refine .doIf (oblivious_writeSaved _ _) ?_
  refine .doIf (oblivious_writeSaved _ _) ?_
  refine .doIf (oblivious_writeSaved _ _) ?_
  exact .ite (oblivious_writeSaved _ _) (.pure ())

/-- Saving into a slot opens nothing. -/
theorem oblivious_saveSlot (slot : Int32) (resume : Nat) (description : Option Bytes) :
    Oblivious cap (saveSlot slot resume description) :=
  .get (fun _ => rfl) fun _ => .bind (oblivious_ofExcept _) fun _ => oblivious_writeSaved _ _

private theorem framesOf_tighten (m : Machine) (saved : List SavedFrame) :
    (m.tighten cap).framesOf saved = m.framesOf saved := by
  induction saved with
  | nil => rfl
  | cons frame rest ih =>
    have hframe : (m.tighten cap).frameOf frame = m.frameOf frame := rfl
    rw [framesOf, framesOf, ih, hframe]

private theorem restore_tighten (m : Machine) (save : Save) :
    (m.tighten cap).restore save = (m.restore save).map (tighten cap) := by
  have hposition : (m.tighten cap).addressOf save.position = m.addressOf save.position := rfl
  simp only [restore, framesOf_tighten, hposition]
  cases m.framesOf save.frames with
  | error fault => rfl
  | ok frames => cases m.addressOf save.position <;> rfl

/-- Taking over a restored game. -/
theorem follows_restore (hm : m.Lenient) (save : Save) :
    Follows cap (fun _ => True) (Action.ofExcept (m.restore save) >>= fun restored => set restored)
      (Action.ofExcept ((m.tighten cap).restore save) >>= fun restored => set restored) m := by
  refine Follows.ofExcept _ (restore_tighten m save) hm fun restored hrestore => ?_
  obtain ⟨frames, pc, -, -, rfl⟩ := restore_eq_ok hrestore
  exact Follows.set hm ⟨rfl, rfl, rfl, rfl⟩

/-- Resuming a save opens nothing. -/
theorem oblivious_resume (save : Save) : Oblivious cap (resume save) := fun _ hm =>
  Follows.get (follows_restore hm save)

/-- Loading a slot opens nothing. -/
theorem oblivious_loadSlot (slot : Int32) : Oblivious cap (loadSlot slot) := by
  intro m hm
  refine Follows.get ?_
  -- Without a folder for saves both fail; with one the machine is still the one at the start.
  have hrequire : (m.tighten cap).requireSaves = m.requireSaves := rfl
  have hread : (m.tighten cap).readSaved? (Save.fileName slot) =
      m.readSaved? (Save.fileName slot) := rfl
  simp only [hrequire, hread]
  cases m.requireSaves with
  | error fault => exact Follows.throw hm fault
  | ok _ =>
    cases m.readSaved? (Save.fileName slot) with
    | none => exact Follows.throw hm _
    | some bytes =>
      dsimp only
      cases Save.ofBytes bytes with
      | error fault => exact Follows.throw hm fault
      | ok save => exact follows_restore hm save

private theorem oblivious_saveGame : Oblivious cap saveGame := by
  refine .bind (oblivious_operand _) fun slot => .get (fun _ => rfl) fun m => ?_
  refine .join ((oblivious_operand _).map _) (.pure none) fun description => ?_
  refine .get (fun _ => rfl) fun m => .bind (oblivious_saveSlot _ _ _) fun _ => ?_
  exact .bind oblivious_savePersistent fun _ => .pure _

private theorem oblivious_loadGame : Oblivious cap loadGame := by
  refine .bind (oblivious_operand _) fun slot => .get (fun _ => rfl) fun m => ?_
  refine .bind (oblivious_ofExcept _) fun _ => .ite ?_ ?_
  · exact .bind (oblivious_loadSlot _) fun _ => .pure _
  · exact .bind (oblivious_warn _) fun _ => .pure _

private theorem oblivious_testSlot : Oblivious cap testSlot := by
  refine .bind oblivious_readIntTarget fun target => .bind (oblivious_operand _) fun slot => ?_
  refine .get (fun _ => rfl) fun m => .bind (oblivious_ofExcept _) fun _ => ?_
  exact .bind (oblivious_updateStore _) fun _ => .pure _

/-! ## Commands -/

/-- A command opens nothing, or it does not ask for a restart. -/
theorem execute_cases (command : Command) :
    Oblivious cap (execute command) ∨
      Capped cap (execute command) ∧ Action.Returns (execute command) (· ≠ .restart) := by
  cases command with
  | gosub => exact .inr ⟨capped_gosub, .bind fun _ => returns_callLabel _⟩
  | rgosub => exact .inr ⟨capped_handlerGosub, returns_handlerGosub⟩
  | forLoop => exact .inr ⟨capped_openLoop, returns_openLoop⟩
  | mov => exact .inl oblivious_assign
  | add | sub | mul | div | mod => exact .inl (oblivious_arithmetic _)
  | inc | dec => exact .inl (oblivious_increase _)
  | cmp => exact .inl oblivious_compareStrings
  | itoa => exact .inl oblivious_integerToString
  | atoi => exact .inl oblivious_stringToInteger
  | len => exact .inl oblivious_stringLength
  | mid => exact .inl oblivious_substring
  | rnd => exact .inl oblivious_randomBelow
  | rnd2 => exact .inl oblivious_randomBetween
  | intlimit => exact .inl oblivious_limitVariable
  | dim => exact .inl oblivious_declareArray
  | numalias => exact .inl oblivious_nameNumber
  | stralias => exact .inl oblivious_nameString
  | goto => exact .inl oblivious_gotoLabel
  | returnCall => exact .inl oblivious_returnFromCall
  | next => exact .inl oblivious_loopAgain
  | breakLoop => exact .inl oblivious_breakLoop
  | ifHolds | notIf => exact .inl (oblivious_conditional _)
  | jumpf => exact .inl oblivious_jumpForward
  | jumpb => exact .inl oblivious_jumpBackward
  | skip => exact .inl oblivious_skipLines
  | endScript | reset => exact .inl (.pure _)
  | game => exact .inl oblivious_startGame
  | defsub => exact .inl oblivious_defineSubroutine
  | getparam => exact .inl oblivious_getParams
  | textgosub => exact .inl oblivious_setTextHook
  | pretextgosub => exact .inl oblivious_setPretextHook
  | gettag => exact .inl oblivious_getTag
  | clickstr => exact .inl oblivious_chooseClickMarkers
  | labellog | filelog | globalon | kidokuskip =>
    exact .inl (.bind (.modify fun _ => ⟨rfl, rfl, rfl, rfl⟩) fun _ => .pure _)
  | savegame => exact .inl oblivious_saveGame
  | loadgame => exact .inl oblivious_loadGame
  | savefileexist => exact .inl oblivious_testSlot

end NovelScript.Machine
