import NovelScript.Proofs.Machine.Evolution
import NovelScript.Proofs.Machine.Loading
import NovelScript.Proofs.Operand.Bounds
import NovelScript.Proofs.SaveArea

/-!
# What every command can do

Every action of the machine, from a single warning up to a whole step, is made of changes of its
core: one lemma for each action, along the way they are put together. An action that leaves alone
what is open goes in any direction.
-/

namespace NovelScript.Machine

open NovelScript.Action (Keeps Leads Returns)

variable {α : Type} {way : Nesting.Direction} {script : Script} {first : Machine}

/-! ## Small actions -/

/-- Warnings change only the log and the number of warnings. -/
theorem keeps_warn_of {I : Machine → Prop}
    (hI : ∀ m count journal, I m → I { m with warningCount := count, journal })
    (warning : Warning) : Keeps I (warn warning) :=
  .get fun m hm => .ite (fun _ => .throw _) fun _ => .set (hI m _ _ hm)

/-- Reporting warnings keeps what does not depend on the log. -/
theorem keeps_warnAll_of {I : Machine → Prop}
    (hI : ∀ m count journal, I m → I { m with warningCount := count, journal })
    (warnings : List Warning) : Keeps I (warnAll warnings) := by
  induction warnings with
  | nil => exact .pure _
  | cons warning warnings ih => exact .bind (keeps_warn_of hI warning) fun _ => ih

/-! What reading of operands and the end of a statement keep: whatever does not depend on the
address and on warnings. -/

section MovingOn

variable {I : Machine → Prop} (hmove : ∀ m pc, I m → I { m with pc })
  (hwarn : ∀ m count journal, I m → I { m with warningCount := count, journal })
include hmove

/-- Passing over a keyword keeps what does not depend on the address and the log. -/
theorem keeps_eatKeyword_of (word : String) : Keeps I (eatKeyword word) := by
  refine .get fun m _ => ?_
  split
  · exact .bind (.modify fun _ h => hmove _ _ h) fun _ => .pure _
  · exact .pure _

/-- So does passing over a token. -/
theorem keeps_eatToken_of (token : Bytes) : Keeps I (eatToken token) :=
  .get fun _ _ =>
    .ite (fun _ => .bind (.modify fun _ h => hmove _ _ h) fun _ => .pure _) fun _ => .pure _

include hwarn

/-- Reading an operand keeps what does not depend on the address and the log. -/
theorem keeps_operand_of (read : Operand.Scope → Operand.Reader α) : Keeps I (operand read) := by
  refine .get fun m _ => ?_
  split
  · refine .bind (keeps_warnAll_of hwarn _) fun _ => ?_
    exact .bind (.modify fun _ h => hmove _ _ h) fun _ => .pure _
  · exact .bind (keeps_warnAll_of hwarn _) fun _ => .throw _

/-- Ending a statement keeps what does not depend on the address and the log. -/
theorem keeps_endStatement_of : Keeps I endStatement := by
  refine .get fun m _ => ?_
  refine .join (.modify fun _ h => hmove _ _ h) (.modify fun _ h => hmove _ _ h) fun _ => ?_
  exact .ite (fun _ => keeps_warn_of hwarn _) fun _ => .pure _

end MovingOn

/-- A warning is a change in every direction. -/
theorem keeps_warn (warning : Warning) : Keeps (Evolves way script first) (warn warning) :=
  .get fun _ hm => .ite (fun _ => .throw _) fun _ => .set (hm.warn warning _)

private theorem keeps_warnAll (warnings : List Warning) :
    Keeps (Evolves way script first) (warnAll warnings) := by
  induction warnings with
  | nil => exact .pure _
  | cons warning warnings ih => exact .bind (keeps_warn warning) fun _ => ih

private theorem keeps_note {notices : List Notice}
    (h : ∀ cause label line, Notice.warning cause label line ∉ notices) :
    Keeps (Evolves way script first) (note notices) :=
  .modify fun _ hm => hm.log (.note h) rfl

/-- So is going on at another address of the script. -/
theorem keeps_moveTo {addr : Nat} (h : addr ≤ script.size) :
    Keeps (Evolves way script first) (moveTo addr) :=
  .modify fun _ hm => hm.move h rfl rfl

/-- A jump goes to a label, which is in the script. -/
theorem keeps_jumpTo (name : String) : Keeps (Evolves way script first) (jumpTo name) := by
  refine .get fun m hm => .ofExcept_bind fun label hlabel => .modify fun _ hm' => ?_
  exact hm'.move (hm.label_le hlabel) rfl rfl

private theorem keeps_resumeText {bookmark : Bookmark} (h : bookmark.addr ≤ script.size) :
    Keeps (Evolves way script first) (resumeText bookmark) :=
  .modify fun _ hm => hm.move h rfl rfl

/-- Marking an address as read keeps what does not depend on the marks. -/
theorem keeps_markRead_of {I : Machine → Prop} (hI : ∀ m marks, I m → I { m with marks })
    (addr : Nat) : Keeps I (markRead addr) :=
  .get fun m hm => .ite (fun _ => .bind (.set (hI m _ hm)) fun _ => .pure _) fun _ => .pure _

private theorem keeps_markRead (addr : Nat) : Keeps (Evolves way script first) (markRead addr) :=
  keeps_markRead_of (fun _ _ hm => hm.aside rfl rfl) addr

/-- A frame that was opened lies above the others. -/
theorem push_eq_ok {nesting next : Nesting} {frame : Frame} (h : nesting.push frame = .ok next) :
    next = { nesting with frames := frame :: nesting.frames } := by
  rw [Nesting.push] at h
  split at h
  · cases h
    rfl
  · split at h
    · cases h
    · cases h
      rfl

/-- Opening a frame is a change if it is one from wherever the machine is. -/
theorem evolves_pushFrame {m : Machine} {frame : Frame} (hm : Evolves way script first m)
    (hframe : Nesting.Change script.size m.store m.nesting way
      { m.nesting with frames := frame :: m.nesting.frames }) :
    Evolves way script first (Action.after (pushFrame frame) m) := by
  refine Keeps.ofExcept_andThen hm fun nesting hpush => ?_
  obtain rfl := push_eq_ok hpush
  exact hm.nest hframe rfl rfl

private theorem keeps_pushFrame {frame : Frame}
    (hframe : ∀ (store : Store) (nesting : Nesting), Nesting.Change script.size store nesting way
      { nesting with frames := frame :: nesting.frames }) :
    Keeps (Evolves way script first) (pushFrame frame) :=
  fun _ hm => evolves_pushFrame hm (hframe _ _)

/-- What is done to the variables is a change if it is an edit of those of the machine. -/
theorem evolves_updateStore {m : Machine} (hm : Evolves way script first m)
    {f : Store → Except Fault Store} (hf : ∀ next, f m.store = .ok next →
      ∃ edit : Store.Edit, way.Allows m.store edit ∧ edit.apply m.store = .ok next) :
    Evolves way script first (Action.after (updateStore f) m) := by
  refine Keeps.ofExcept_andThen hm fun store hstore => ?_
  obtain ⟨edit, hallowed, hedit⟩ := hf store hstore
  exact hm.edit (.single edit hallowed hedit) rfl rfl

/-- A change of the variables is one if it is an edit that goes along with the direction. -/
theorem keeps_updateStore {f : Store → Except Fault Store}
    (hf : ∀ store next, f store = .ok next →
      ∃ edit : Store.Edit, way.Allows store edit ∧ edit.apply store = .ok next) :
    Keeps (Evolves way script first) (updateStore f) :=
  fun m hm => evolves_updateStore hm (hf m.store)

/-! ## Operands -/

private theorem keeps_operand {read : Operand.Scope → Operand.Reader α}
    (hread : ∀ (scope : Operand.Scope) (start : Nat),
      Keeps (Operand.Inside scope.script start) (read scope)) :
    Keeps (Evolves way script first) (operand read) := by
  refine .get fun m hm => ?_
  split
  · next value after hrun =>
    have hafter : after.pos ≤ m.script.size :=
      (Operand.inside_of_run_eq_ok (hread m.scope _) (Nat.min_le_right _ _) hrun).le
    rw [hm.script_eq] at hafter ⊢
    refine .bind (keeps_warnAll _) fun _ => .bind (keeps_moveTo ?_) fun _ => .pure _
    exact Script.skipBlanks_le_size (Script.eat_le_size _ (Script.skipBlanks_le_size hafter))
  · exact .bind (keeps_warnAll _) fun _ => .throw _

/-- Reading an integer expression moves on and changes nothing else. -/
theorem keeps_readInt : Keeps (Evolves way script first) readInt :=
  keeps_operand fun scope _ => scope.keeps_int

/-- So does reading a string expression. -/
theorem keeps_readStr : Keeps (Evolves way script first) readStr :=
  keeps_operand fun scope _ => scope.keeps_str

/-- So does reading a label. -/
theorem keeps_readLabel : Keeps (Evolves way script first) readLabel :=
  keeps_operand fun scope _ => scope.keeps_label

/-- So does reading a reference to a variable. -/
theorem keeps_readVarRef : Keeps (Evolves way script first) readVarRef :=
  keeps_operand fun scope _ => scope.keeps_varRef

private theorem keeps_readName : Keeps (Evolves way script first) readName :=
  keeps_operand fun scope _ => scope.keeps_name

private theorem returns_operand {read : Operand.Scope → Operand.Reader α} {P : α → Prop}
    (hread : ∀ scope, Returns (read scope) P) : Returns (operand read) P := by
  refine Action.Yields.look fun m value m' h => ?_
  cases hrun : (read m.scope).run { pos := m.cursor } with
  | ok found after =>
    simp only [hrun] at h
    obtain ⟨_, _, -, h⟩ := Action.exists_of_run_eq_ok h
    obtain ⟨_, _, -, h⟩ := Action.exists_of_run_eq_ok h
    cases h
    exact hread _ _ _ _ hrun
  | error fault after =>
    simp only [hrun] at h
    obtain ⟨_, _, -, h⟩ := Action.exists_of_run_eq_ok h
    cases h

/-- A reference that is read names a slot below 2³¹. -/
theorem returns_readVarRef : Returns readVarRef VariableRef.Numbered :=
  returns_operand Operand.Scope.returns_varRef

/-- So does reading a reference to an integer variable. -/
theorem keeps_readIntTarget : Keeps (Evolves way script first) readIntTarget :=
  .bind keeps_readVarRef fun _ => .guard fun _ => .pure _

/-- A target of integers is no string variable. -/
theorem returns_readIntTarget :
    Returns readIntTarget fun target => target.isStr = false ∧ target.Numbered := by
  refine .seq returns_readVarRef fun target htarget => ?_
  by_cases hstr : target.isStr = true
  · rw [if_pos hstr]
    exact .fail
  · rw [if_neg hstr]
    exact .pure ⟨by simpa using hstr, htarget⟩

private theorem keeps_readStrTarget : Keeps (Evolves way script first) readStrTarget := by
  refine .bind keeps_readVarRef fun target => ?_
  cases target with
  | str n => exact .pure _
  | int n => exact .throw _
  | array no indices => exact .throw _

private theorem returns_readStrTarget : Returns readStrTarget (· < 2 ^ 31) := by
  refine .seq returns_readVarRef fun target htarget => ?_
  cases target with
  | str n => exact .pure htarget
  | int n => exact .throw
  | array no indices => exact .throw

/-- Looking for a keyword moves on at most. -/
theorem keeps_eatKeyword (word : String) : Keeps (Evolves way script first) (eatKeyword word) := by
  refine .get fun m hm => ?_
  split
  · next after hword =>
    rw [hm.script_eq] at hword ⊢
    have hafter := Script.le_size_of_keyword? hword (Script.skipBlanks_le_size hm.cursor_le)
    exact .bind (keeps_moveTo (Script.skipBlanks_le_size hafter)) fun _ => .pure _
  · exact .pure _

/-- So does looking for a token. -/
theorem keeps_eatToken (token : Bytes) : Keeps (Evolves way script first) (eatToken token) := by
  refine .get fun m hm => .ite (fun htoken => ?_) fun _ => .pure _
  rw [hm.script_eq] at htoken ⊢
  have hafter := Script.le_size_of_startsWith htoken (Script.skipBlanks_le_size hm.cursor_le)
  exact .bind (keeps_moveTo (Script.skipBlanks_le_size hafter)) fun _ => .pure _

/-- So does a token that must be there. -/
theorem keeps_expectToken (token : String) : Keeps (Evolves way script first) (expectToken token) :=
  .bind (keeps_eatToken _) fun _ => .ite (fun _ => .pure _) fun _ => .throw _

/-- What is done at another address gives its result and the address that it came to, and the
machine is back. -/
theorem atAddress_of_ok {addr : Nat} {action : Run α} {m after : Machine} {a : α}
    (h : action { m with pc := addr } = .ok a after) :
    atAddress addr action m = .ok (a, after.pc) { after with pc := m.pc } := by
  rw [atAddress, h]

/-- If it fails there, the machine is back all the same. -/
theorem atAddress_of_error {addr : Nat} {action : Run α} {m after : Machine} {fault : Fault}
    (h : action { m with pc := addr } = .error fault after) :
    atAddress addr action m = .error fault { after with pc := m.pc } := by
  rw [atAddress, h]

private theorem keeps_atAddress {addr : Nat} (haddr : addr ≤ script.size) {action : Run α}
    (haction : Keeps (Evolves way script first) action) :
    Keeps (Evolves way script first) (atAddress addr action) := by
  intro m hm
  have hstart : Evolves way script first { m with pc := addr } := hm.move haddr rfl rfl
  have hafter := haction hstart
  cases hrun : action { m with pc := addr } with
  | ok a after =>
    rw [Action.after_of_ok hrun] at hafter
    rw [Action.after_of_ok (atAddress_of_ok hrun)]
    exact hafter.move hm.pc_le rfl rfl
  | error fault after =>
    rw [Action.after_of_error hrun] at hafter
    rw [Action.after_of_error (atAddress_of_error hrun)]
    exact hafter.move hm.pc_le rfl rfl

/-- Where an action at another address has come to. -/
theorem atAddress_eq_ok {addr reached : Nat} {action : Run α} {m m' : Machine} {a : α}
    (h : atAddress addr action m = .ok (a, reached) m') :
    reached = (Action.after action { m with pc := addr }).pc := by
  cases hrun : action { m with pc := addr } with
  | ok b after =>
    rw [atAddress_of_ok hrun] at h
    cases h
    rw [Action.after_of_ok hrun]
  | error fault after =>
    rw [atAddress_of_error hrun] at h
    cases h

/-- An action that goes in any direction, and so changes nothing that is open, keeps whatever holds
of what is open. -/
theorem keeps_still {x : Run α} (hx : ∀ way first, Keeps (Evolves way script first) x)
    {P : Nesting → Prop} : Keeps (fun m => Evolves way script first m ∧ P m.nesting) x := by
  intro m hm
  have hsame : (Action.after x m).nesting = m.nesting :=
    (hx .still m (Evolves.refl hm.1.inside)).nesting_eq (.inl rfl)
  constructor
  · exact hx way first hm.1
  · rw [hsame]
    exact hm.2

/-! ## Commands on variables -/

/-- Writing an integer is an edit of the variables. -/
theorem keeps_writeInt {target : VariableRef} (h : target.Numbered) (value : Int32) :
    Keeps (Evolves way script first) (writeInt target value) := by
  refine keeps_updateStore fun store next hwrite => ?_
  obtain ⟨edit, hfits, hedit⟩ := Store.edit_of_writeInt hwrite
  exact ⟨edit, fun _ => hfits h, hedit⟩

private theorem keeps_writeStr {target : VariableRef} (h : target.Numbered) (value : Bytes) :
    Keeps (Evolves way script first) (writeStr target value) := by
  refine keeps_updateStore fun store next hwrite => ?_
  obtain ⟨edit, hfits, hedit⟩ := Store.edit_of_writeStr hwrite
  exact ⟨edit, fun _ => hfits h, hedit⟩

private theorem keeps_setStr {n : Nat} (h : n < 2 ^ 31) (value : Bytes) :
    Keeps (Evolves way script first) (setStr n value) :=
  .modify fun _ hm => hm.edit (.single (.setStr n value) (fun _ => .inl h) rfl) rfl rfl

/-- Looking up a variable changes nothing. -/
theorem keeps_valueOf (target : VariableRef) : Keeps (Evolves way script first) (valueOf target) :=
  .get fun _ _ => .ofExcept

/-- An assignment evolves the machine by reading operands and by one edit. -/
theorem keeps_assign : Keeps (Evolves way script first) assign := by
  refine .bindReturns keeps_readVarRef returns_readVarRef fun target htarget => ?_
  refine .bind (keeps_eatToken _).discard fun _ => ?_
  refine .ite (fun _ => ?_) fun _ => .get fun m _ => .ite (fun _ => .fail) fun _ => ?_
  · exact .bind keeps_readStr fun value => .bind (keeps_writeStr htarget _) fun _ => .pure _
  · exact .bind keeps_readInt fun value => .bind (keeps_writeInt htarget _) fun _ => .pure _

/-- So does a calculation with a variable. -/
theorem keeps_arithmetic (op : Operator) : Keeps (Evolves way script first) (arithmetic op) := by
  have hint : ∀ target : VariableRef, target.Numbered → Keeps (Evolves way script first) (do
      let rhs ← readInt
      let lhs ← valueOf target
      let value ← Action.ofExcept (op.apply lhs rhs)
      writeInt target value
      return Outcome.advance) := by
    intro target htarget
    refine .bind keeps_readInt fun rhs => .bind (keeps_valueOf _) fun lhs => ?_
    exact .ofExcept_bind fun value _ => .bind (keeps_writeInt htarget _) fun _ => .pure _
  refine .bindReturns keeps_readVarRef returns_readVarRef fun target htarget => ?_
  cases target with
  | str n =>
    refine .guard fun _ => .get fun m _ => .bind keeps_readStr fun value => ?_
    exact .bind (keeps_setStr htarget _) fun _ => .pure _
  | int n => exact hint _ htarget
  | array no indices => exact hint _ htarget

/-- So does counting up or down. -/
theorem keeps_increase (amount : Int32) : Keeps (Evolves way script first) (increase amount) := by
  refine .bindReturns keeps_readIntTarget returns_readIntTarget fun target htarget => ?_
  refine .bind (keeps_valueOf _) fun value => ?_
  exact .bind (keeps_writeInt htarget.2 _) fun _ => .pure _

/-- So does a comparison of strings. -/
theorem keeps_compareStrings : Keeps (Evolves way script first) compareStrings := by
  refine .bindReturns keeps_readIntTarget returns_readIntTarget fun target htarget => ?_
  refine .bind keeps_readStr fun a => ?_
  exact .bind keeps_readStr fun b => .bind (keeps_writeInt htarget.2 _) fun _ => .pure _

/-- So does writing a number as a string. -/
theorem keeps_integerToString : Keeps (Evolves way script first) integerToString := by
  refine .bindReturns keeps_readStrTarget returns_readStrTarget fun n hn => ?_
  refine .bind keeps_readInt fun value => ?_
  exact .bind (keeps_setStr hn _) fun _ => .pure _

/-- So does reading a number from a string. -/
theorem keeps_stringToInteger : Keeps (Evolves way script first) stringToInteger := by
  refine .bindReturns keeps_readIntTarget returns_readIntTarget fun target htarget => ?_
  refine .bind keeps_readStr fun text => ?_
  exact .bind (keeps_writeInt htarget.2 _) fun _ => .pure _

/-- So does taking the length of a string. -/
theorem keeps_stringLength : Keeps (Evolves way script first) stringLength := by
  refine .bindReturns keeps_readIntTarget returns_readIntTarget fun target htarget => ?_
  refine .bind keeps_readStr fun text => ?_
  exact .bind (keeps_writeInt htarget.2 _) fun _ => .pure _

/-- So does taking a part of a string. -/
theorem keeps_substring : Keeps (Evolves way script first) substring := by
  refine .bindReturns keeps_readStrTarget returns_readStrTarget fun n hn => ?_
  refine .bind keeps_readStr fun text => ?_
  refine .bind keeps_readInt fun start => .bind keeps_readInt fun count => .get fun m _ => ?_
  exact .bind (keeps_setStr hn _) fun _ => .pure _

/-- So does drawing a number below a bound. -/
theorem keeps_randomBelow : Keeps (Evolves way script first) randomBelow := by
  refine .bindReturns keeps_readIntTarget returns_readIntTarget fun target htarget => ?_
  refine .bind keeps_readInt fun upper => .get fun m hstart => ?_
  refine .bind (.modify fun _ hm => ?_) fun _ => ?_
  · exact hm.draw ((Chance.source_below _ _).trans hstart.given.1)
  exact .bind (keeps_writeInt htarget.2 _) fun _ => .pure _

/-- So does drawing a number between two bounds. -/
theorem keeps_randomBetween : Keeps (Evolves way script first) randomBetween := by
  refine .bindReturns keeps_readIntTarget returns_readIntTarget fun target htarget => ?_
  refine .bind keeps_readInt fun lower => ?_
  refine .bind keeps_readInt fun upper => .get fun m hstart => ?_
  refine .bind (.modify fun _ hm => ?_) fun _ => ?_
  · exact hm.draw ((Chance.source_between _ _ _).trans hstart.given.1)
  exact .bind (keeps_writeInt htarget.2 _) fun _ => .pure _

/-- So does bounding a variable. -/
theorem keeps_limitVariable : Keeps (Evolves way script first) limitVariable := by
  refine .bind (keeps_eatToken _).discard fun _ => .bind keeps_readInt fun n => ?_
  refine .bind keeps_readInt fun lower => .bind keeps_readInt fun upper => ?_
  refine .ofExcept_bind fun slot hslot => ?_
  refine .bind (keeps_updateStore fun store next h => ?_) fun _ => .pure _
  exact ⟨.setLimit slot lower upper, fun _ => .inl (Store.lt_of_index hslot), h⟩

/-- So does declaring an array. -/
theorem keeps_declareArray : Keeps (Evolves way script first) declareArray := by
  refine .bind keeps_readVarRef fun target => ?_
  cases target with
  | array no dims =>
    refine .bind (keeps_updateStore fun store next h => ?_) fun _ => .pure _
    exact ⟨.declare no dims, fun _ => trivial, h⟩
  | int n => exact .fail
  | str n => exact .fail

private theorem warning_notMem_addNumber (a : Aliases) (name : String) (value : Int32)
    (cause : Warning)
    (label : String) (line : Nat) : Notice.warning cause label line ∉ (a.addNumber name value).2 := by
  unfold Aliases.addNumber
  split <;> simp

private theorem warning_notMem_addString (a : Aliases) (name : String) (value : Bytes)
    (cause : Warning)
    (label : String) (line : Nat) : Notice.warning cause label line ∉ (a.addString name value).2 := by
  unfold Aliases.addString
  split <;> simp

/-- Naming a number reads operands and changes no variable. -/
theorem keeps_nameNumber : Keeps (Evolves way script first) nameNumber := by
  refine .bind keeps_readName fun name => .bind keeps_readInt fun value => .get fun m _ => ?_
  refine .bind (.modify fun _ hm => hm.aside rfl rfl) fun _ => ?_
  exact .bind (keeps_note (warning_notMem_addNumber m.aliases name value)) fun _ => .pure _

/-- Neither does naming a string. -/
theorem keeps_nameString : Keeps (Evolves way script first) nameString := by
  refine .bind keeps_readName fun name => .bind keeps_readStr fun value => .get fun m _ => ?_
  refine .bind (.modify fun _ hm => hm.aside rfl rfl) fun _ => ?_
  exact .bind (keeps_note (warning_notMem_addString m.aliases name value)) fun _ => .pure _

/-! ## Control flow -/

/-- Going to a label reads it and jumps. -/
theorem keeps_gotoLabel : Keeps (Evolves way script first) gotoLabel :=
  .bind keeps_readLabel fun _ => .bind (keeps_jumpTo _) fun _ => .pure _

private theorem keeps_callLabel (label : String) :
    Keeps (Evolves .inward script first) (callLabel label) := by
  refine .get fun m hm => .bind (keeps_pushFrame fun _ _ => ?_) fun _ => ?_
  · exact .call (hm.statementEnd_le _)
  · exact .bind (keeps_jumpTo _) fun _ => .pure _

private theorem keeps_gosub : Keeps (Evolves .inward script first) gosub :=
  .bind keeps_readLabel fun _ => keeps_callLabel _

/-- Leaving a handler closes the innermost frames. -/
theorem unwindHandler_suffix (nesting : Nesting) :
    ∃ frames, frames <:+ nesting.frames ∧ nesting.unwindHandler = { nesting with frames } := by
  rw [Nesting.unwindHandler]
  split
  · exact ⟨_, (List.tail_suffix _).trans (List.dropWhile_suffix _), rfl⟩
  · exact ⟨nesting.frames, List.suffix_rfl, rfl⟩

private theorem keeps_leaveCall {frame : CallFrame} (h : (Frame.call frame).Within script.size) :
    Keeps (Evolves .outward script first) (leaveCall frame) := by
  obtain ⟨kind, returnTo, params, bookmark⟩ := frame
  have hplain : Keeps (Evolves .outward script first)
      (modify fun m => { m with pc := returnTo, inText := false } : Run Unit) :=
    .modify fun _ hm => hm.move h.1 rfl rfl
  cases bookmark with
  | none => cases kind <;> exact hplain
  | some bookmark =>
    have hresume : Keeps (Evolves .outward script first) (resumeText bookmark) :=
      keeps_resumeText (h.2.2 bookmark rfl)
    cases kind with
    | gosub | subroutine => exact hplain
    | textGosub | pretext => exact hresume
    | rgosub =>
      refine .bind (.modify fun m hm => ?_) fun _ => hresume
      obtain ⟨frames, hsuffix, heq⟩ := unwindHandler_suffix m.nesting
      exact hm.nest (heq ▸ .close hsuffix) rfl rfl

/-- The call that is closed was the innermost frame. -/
theorem popCall_eq_ok {nesting rest : Nesting} {frame : CallFrame}
    (h : nesting.popCall = .ok (frame, rest)) :
    nesting.frames = .call frame :: rest.frames ∧ rest = { nesting with frames := rest.frames } := by
  rcases nesting with ⟨_ | ⟨⟨frame⟩ | ⟨frame⟩, frames⟩, cap⟩
  · cases h
  · cases h
    exact ⟨rfl, rfl⟩
  · cases h

private theorem keeps_returnFromCall : Keeps (Evolves .outward script first) returnFromCall := by
  refine .get fun m _ => .join (.map _ keeps_readLabel) (.pure _) fun target => ?_
  refine .look fun m hm => Keeps.ofExcept_andThen hm fun popped hpop => ?_
  obtain ⟨frame, rest⟩ := popped
  obtain ⟨hframes, hrest⟩ := popCall_eq_ok hpop
  have hframe := hm.inside.nesting _ (hframes ▸ List.mem_cons_self)
  have hsuffix : rest.frames <:+ m.nesting.frames := hframes ▸ List.suffix_cons _ _
  refine Keeps.andThen (hm.nest (hrest ▸ .close hsuffix) rfl rfl) fun _ => ?_
  cases target with
  | some label => exact .bind (keeps_jumpTo _) fun _ => .pure _
  | none => exact .bind (keeps_leaveCall hframe) fun _ => .pure _

private theorem keeps_handlerGosub : Keeps (Evolves .inward script first) handlerGosub := by
  refine .bind keeps_readLabel fun label => .look fun m hm => ?_
  cases hbookmark : m.nesting.bookmark? with
  | some bookmark =>
    refine Keeps.andThen (evolves_pushFrame hm (.handlerCall hbookmark)) fun _ => ?_
    exact .bind (keeps_jumpTo _) fun _ => .pure _
  | none => exact Keeps.bind (keeps_warn _) (fun _ => keeps_callLabel _) hm

private theorem keeps_openLoop : Keeps (Evolves .inward script first) openLoop := by
  refine .bindReturns keeps_readIntTarget returns_readIntTarget fun counter hcounter => ?_
  obtain ⟨hint, hnumber⟩ := hcounter
  refine .bind (keeps_expectToken _) fun _ => .bind keeps_readInt fun start => ?_
  refine .bind (keeps_eatKeyword _) fun found => .doUnless (.throw _) ?_
  refine .bind keeps_readInt fun bound => .bind (keeps_eatKeyword _) fun stepped => ?_
  refine .join keeps_readInt (.pure _) fun step => .guard fun hstep => ?_
  refine .bind (keeps_writeInt hnumber _) fun _ => ?_
  -- The counter is read where the loop is opened.
  rw [valueOf, bind_assoc]
  refine .look fun m hm => Keeps.ofExcept_andThen hm fun value hvalue => ?_
  have hopen (finished : Bool) : Evolves .inward script first (Action.after (pushFrame (.loop
      { counter, bound, step, body := m.statementEnd m.pc, finished })) m) :=
    evolves_pushFrame hm (.loop (hm.statementEnd_le _) hstep hint hnumber ⟨value, hvalue⟩)
  refine Keeps.choose (fun _ => ?_) fun _ => ?_
  · refine Keeps.ofExcept_andThen hm fun found hfound => ?_
    rw [hm.script_eq] at hfound
    have hmove : Keeps (Evolves .inward script first) (moveTo found.start) :=
      keeps_moveTo (Script.loopEnd_le_size hfound).1
    exact Keeps.andThen (hopen true) fun _ => .bind hmove fun _ => .pure _
  · exact Keeps.andThen (hopen false) fun _ => .pure _

/-- Closing a loop closes the innermost frames down to it. -/
theorem popLoop_eq_ok {nesting rest : Nesting} {frame : LoopFrame}
    (h : nesting.popLoop = .ok (frame, rest)) :
    ∃ frames, frames <:+ nesting.frames ∧ rest = { nesting with frames } := by
  rcases nesting with ⟨_ | ⟨⟨frame⟩ | ⟨frame⟩, frames⟩, cap⟩
  · cases h
  · cases h
  · cases h
    exact ⟨frames, List.suffix_cons _ _, rfl⟩

private theorem keeps_closeLoop : Keeps (Evolves .outward script first) closeLoop := by
  refine .look fun m hm => Keeps.ofExcept_andThen hm fun popped hpop => ?_
  obtain ⟨frame, nesting⟩ := popped
  obtain ⟨frames, hsuffix, rfl⟩ := popLoop_eq_ok hpop
  exact hm.nest (.close hsuffix) rfl rfl

/-- The innermost loop is one of the open frames. -/
theorem topLoop_mem {nesting : Nesting} {frame : LoopFrame} (h : nesting.topLoop = .ok frame) :
    Frame.loop frame ∈ nesting.frames := by
  rcases nesting with ⟨_ | ⟨⟨frame⟩ | ⟨frame⟩, frames⟩, cap⟩
  · cases h
  · cases h
  · cases h
    exact List.mem_cons_self

/-- The counter of an open loop may be written. -/
theorem leads_count (frame : LoopFrame) (value : Int32) :
    Leads (fun m => Evolves way script first m ∧ Frame.loop frame ∈ m.nesting.frames)
      (Evolves way script first) (writeInt frame.counter value) := by
  refine .look fun m hm => Keeps.ofExcept_andThen hm.1 fun store hstore => ?_
  exact hm.1.count hm.2 hstore rfl rfl

private theorem keeps_loopAgain : Keeps (Evolves .outward script first) loopAgain := by
  refine .look fun m hm => Keeps.ofExcept_andThen hm fun frame hframe => ?_
  have hopen : Frame.loop frame ∈ m.nesting.frames := topLoop_mem hframe
  have hbody : frame.body ≤ script.size := hm.inside.nesting _ hopen
  refine Keeps.choose (fun _ => ?_) fun _ => ?_
  · exact Keeps.bind keeps_closeLoop (fun _ => .pure _) hm
  · -- Until the counter is written, its loop is open.
    refine Leads.keep (I := fun m => _ ∧ Frame.loop frame ∈ m.nesting.frames) (fun _ h => h.1)
      (.get fun _ _ => .ofExcept) (fun value => ?_) ⟨hm, hopen⟩
    refine .andThen (leads_count frame _) fun _ => .bind (keeps_valueOf _) fun reached => ?_
    refine .ite (fun _ => .bind keeps_closeLoop fun _ => .pure _) fun _ => ?_
    exact .bind (keeps_moveTo hbody) fun _ => .pure _

private theorem keeps_breakLoop : Keeps (Evolves .outward script first) breakLoop := by
  refine .look fun m hm => Keeps.choose (fun _ => ?_) fun _ => ?_
  · refine Keeps.bind keeps_readLabel (fun label => .get fun m _ => ?_) hm
    refine .join keeps_closeLoop (keeps_warn _) fun _ => ?_
    exact .bind (keeps_jumpTo _) fun _ => .pure _
  · refine Keeps.ofExcept_andThen hm fun found hfound => ?_
    rw [hm.script_eq] at hfound
    obtain ⟨hstart, hafter⟩ := Script.loopEnd_le_size hfound
    refine Keeps.choose (fun _ => ?_) fun _ => ?_
    · refine Keeps.ofExcept_andThen hm fun nesting hfinish => ?_
      refine Keeps.andThen (hm.nest (.finish hfinish) rfl rfl) fun _ => ?_
      exact .bind (keeps_moveTo hstart) fun _ => .pure _
    · refine Keeps.bind (keeps_warn _) (fun _ => ?_) hm
      exact .bind (keeps_moveTo hafter) fun _ => .pure _

private theorem keeps_readComparisonOf (tokens : List (Bytes × Comparison)) :
    Keeps (Evolves way script first) (readComparisonOf tokens) := by
  induction tokens with
  | nil => exact .pure _
  | cons entry tokens ih =>
    exact .bind (keeps_eatToken _) fun _ => .ite (fun _ => .pure _) fun _ => ih

private theorem keeps_conditionTerm : Keeps (Evolves way script first) conditionTerm := by
  refine .bind (keeps_eatKeyword _) fun files => .ite (fun _ => ?_) fun _ => ?_
  · exact .bind keeps_readStr fun name => .get fun m _ => .pure _
  refine .bind (keeps_eatKeyword _) fun labels => .ite (fun _ => ?_) fun _ => ?_
  · exact .bind keeps_readLabel fun label => .get fun m _ => .pure _
  refine .get fun m _ => .ite (fun _ => ?_) fun _ => ?_
  · refine .bind keeps_readStr fun lhs => .bind (keeps_readComparisonOf _) fun comparison => ?_
    cases comparison with
    | none => exact .throw _
    | some comparison => exact .bind keeps_readStr fun rhs => .pure _
  · refine .bind keeps_readInt fun lhs => .bind (keeps_readComparisonOf _) fun comparison => ?_
    cases comparison with
    | none => exact .pure _
    | some comparison => exact .bind keeps_readInt fun rhs => .pure _

private theorem keeps_conditionTail (terms : Nat) (result : Bool) :
    Keeps (Evolves way script first) (conditionTail terms result) := by
  induction terms generalizing result with
  | zero => exact .pure _
  | succ terms ih =>
    refine .bind (keeps_eatToken _) fun double => .join (.pure _) (keeps_eatToken _) fun joined => ?_
    exact .ite (fun _ => .bind keeps_conditionTerm fun term => ih _) fun _ => .pure _

/-- A condition only reads operands. -/
theorem keeps_conditional (expected : Bool) :
    Keeps (Evolves way script first) (conditional expected) := by
  refine .bind keeps_conditionTerm fun holds => .get fun m _ => ?_
  exact .bind (keeps_conditionTail _ _) fun result => .ite (fun _ => .pure _) fun _ => .pure _

/-- Going on after the next section marker notes that marker and jumps. -/
theorem keeps_jumpForward : Keeps (Evolves way script first) jumpForward := by
  refine .get fun m hm => ?_
  split
  · exact .throw _
  · next target htarget =>
    have hbound := Script.sectionAfter?_le_size htarget
    have hpassed : Evolves way script first { m with lastSection := some target } :=
      hm.step (.pass hbound) rfl rfl
    exact .bind (.set (hpassed.move (hm.script_eq ▸ hbound) rfl rfl)) fun _ => .pure _

/-- Going back to the last section marker jumps there. -/
theorem keeps_jumpBackward : Keeps (Evolves way script first) jumpBackward := by
  refine .get fun m hm => ?_
  split
  · exact .throw _
  · next target htarget =>
    exact .bind (keeps_moveTo (hm.inside.lastSection target htarget)) fun _ => .pure _

/-- Moving some lines down or up jumps to the start of a line. -/
theorem keeps_skipLines : Keeps (Evolves way script first) skipLines := by
  refine .bind keeps_readInt fun n => .get fun m hm => ?_
  obtain rfl := hm.script_eq
  refine .ite (fun _ => ?_) fun _ => ?_
  · refine .bind (keeps_moveTo ?_) fun _ => .pure _
    exact Script.linesDown_le_size (Script.lineStart_le_size _ _)
  · split
    · exact .fail
    · next target htarget =>
      refine .bind (keeps_moveTo ?_) fun _ => .pure _
      exact Script.linesUp?_le_size (Script.lineStart_le_size _ _) htarget

/-- The start of the game is a jump. -/
theorem keeps_startGame : Keeps (Evolves way script first) startGame :=
  .bind (keeps_jumpTo _) fun _ => .pure _

/-- A new command of the script changes neither the place nor the variables. -/
theorem keeps_defineSubroutine : Keeps (Evolves way script first) defineSubroutine :=
  .bind keeps_readName fun _ => .bind (.modify fun _ hm => hm.aside rfl rfl) fun _ => .pure _

private theorem keeps_eatPointer : Keeps (Evolves way script first) eatPointer := by
  refine .get fun m hm => .ite (fun hpercent => ?_) fun _ => .pure _
  have hnext : m.script.skipBlanks m.cursor + 1 ≤ script.size := by
    rw [← hm.script_eq]
    exact Nat.le_of_lt (Script.lt_size_of_isAt hpercent)
  refine .ite (fun _ => .bind (keeps_moveTo hnext) fun _ => .pure _) fun _ => ?_
  exact .ite (fun _ => .bind (keeps_moveTo hnext) fun _ => .pure _) fun _ => .pure _

private theorem keeps_readParam (pointer : Option ParamPointer) {target : VariableRef}
    (h : target.Numbered) :
    Keeps (Evolves way script first) (readParam pointer target) := by
  cases pointer with
  | none =>
    refine .ite (fun _ => ?_) fun _ => ?_
    · exact .bind keeps_readStr fun value => keeps_writeStr h _
    · exact .bind keeps_readInt fun value => keeps_writeInt h _
  | some pointer =>
    cases pointer with
    | int =>
      refine .bind keeps_readVarRef fun found => ?_
      cases found with
      | int n => exact keeps_writeInt h _
      | str n | array no indices => exact .throw _
    | str =>
      refine .bind keeps_readVarRef fun found => ?_
      cases found with
      | str n => exact keeps_writeInt h _
      | int n | array no indices => exact .throw _

private theorem keeps_readParamIfAny (pointer : Option ParamPointer) {target : VariableRef}
    (h : target.Numbered) :
    Keeps (Evolves way script first) (readParamIfAny pointer target) :=
  .get fun _ _ => .ite (fun _ => .bind (keeps_readParam _ h) fun _ => .pure _) fun _ => .pure _

/-- The machine is at an address of the script that is not before `start`. -/
structure Past (script : Script) (start : Nat) (m : Machine) : Prop where
  /-- The script is the given one. -/
  script_eq : m.script = script
  /-- The machine has not gone back. -/
  ge : start ≤ m.pc
  /-- It is at an address of the script. -/
  le : m.pc ≤ script.size

section Past

variable {start : Nat}

private theorem past_operand {read : Operand.Scope → Operand.Reader α}
    (hread : ∀ (scope : Operand.Scope) (start : Nat),
      Keeps (Operand.Inside scope.script start) (read scope)) :
    Keeps (Past script start) (operand read) := by
  have hwarn : ∀ warnings, Keeps (Past script start) (warnAll warnings) :=
    keeps_warnAll_of fun _ _ _ hm => ⟨hm.script_eq, hm.ge, hm.le⟩
  refine .get fun m hm => ?_
  split
  · next value after hrun =>
    have hafter : Operand.Inside m.script m.cursor after :=
      Operand.inside_of_run_eq_ok (hread m.scope _) (Nat.min_le_right _ _) hrun
    have hge := hafter.ge
    obtain ⟨rfl, hstart, hpc⟩ := hm
    have hcursor : start ≤ m.cursor := Nat.le_min.mpr ⟨hstart, hstart.trans hpc⟩
    have hblanks := m.script.le_skipBlanks after.pos
    have hcomma := m.script.le_eat Byte.comma (m.script.skipBlanks after.pos)
    have hnext := m.script.le_skipBlanks (m.script.eat Byte.comma (m.script.skipBlanks after.pos))
    refine .bind (hwarn _) fun _ => .bind (.modify fun _ hm => ⟨hm.script_eq, ?_, ?_⟩) fun _ => .pure _
    · show start ≤ m.script.skipBlanks (m.script.eat Byte.comma (m.script.skipBlanks after.pos))
      omega
    · exact Script.skipBlanks_le_size (Script.eat_le_size _ (Script.skipBlanks_le_size hafter.le))
  · exact .bind (hwarn _) fun _ => .throw _

private theorem past_updateStore (f : Store → Except Fault Store) :
    Keeps (Past script start) (updateStore f) :=
  .get fun _ _ => .ofExcept_bind fun _ _ => .modify fun _ hm => ⟨hm.script_eq, hm.ge, hm.le⟩

/-- Reading an operand of the calling statement goes forward. -/
theorem past_readParam (pointer : Option ParamPointer) (target : VariableRef) :
    Keeps (Past script start) (readParam pointer target) := by
  have href : Keeps (Past script start) readVarRef := past_operand fun scope _ => scope.keeps_varRef
  cases pointer with
  | none =>
    refine .ite (fun _ => ?_) fun _ => ?_
    · exact .bind (past_operand fun scope _ => scope.keeps_str) fun _ => past_updateStore _
    · exact .bind (past_operand fun scope _ => scope.keeps_int) fun _ => past_updateStore _
  | some pointer =>
    cases pointer with
    | int =>
      refine .bind href fun found => ?_
      cases found with
      | int n => exact past_updateStore _
      | str n | array no indices => exact .throw _
    | str =>
      refine .bind href fun found => ?_
      cases found with
      | str n => exact past_updateStore _
      | int n | array no indices => exact .throw _

private theorem past_readParamIfAny (pointer : Option ParamPointer) (target : VariableRef) :
    Keeps (Past script start) (readParamIfAny pointer target) :=
  .get fun _ _ => .ite (fun _ => .bind (past_readParam _ _) fun _ => .pure _) fun _ => .pure _

end Past

private theorem params?_le {m : Machine} (hm : Evolves way script first m) {addr : Nat}
    (h : m.nesting.params? = some addr) : addr ≤ script.size := by
  obtain ⟨call, hcall, hparams⟩ := Nesting.exists_of_params? h
  exact (hm.inside.nesting _ hcall).2.1 _ hparams

/-- Where reading an operand of the calling statement comes to. -/
theorem readParamIfAny_bounds {m m' : Machine} (hm : Evolves way script first m) {params : Nat}
    (hparams : params ≤ script.size) {pointer : Option ParamPointer} {target : VariableRef}
    {found : Bool} {reached : Nat}
    (h : atAddress params (readParamIfAny pointer target) m = .ok (found, reached) m') :
    params ≤ reached ∧ reached ≤ script.size := by
  have hstart : Past script params { m with pc := params } :=
    ⟨hm.script_eq, Nat.le_refl params, hparams⟩
  have hreached := past_readParamIfAny pointer target hstart
  rw [atAddress_eq_ok h]
  exact ⟨hreached.ge, hreached.le⟩

private theorem keeps_copyParams (targets : Nat) :
    Keeps (Evolves .outward script first) (copyParams targets) := by
  induction targets with
  | zero => exact .pure _
  | succ targets ih =>
    refine .get fun m _ => .ite (fun _ => ?_) fun _ => .pure _
    refine .bind keeps_eatPointer fun pointer => ?_
    refine .bindReturns keeps_readVarRef returns_readVarRef fun target htarget => ?_
    refine .guard fun _ => .look fun m hm => ?_
    cases hparams : m.nesting.params? with
    | none => exact hm
    | some params =>
      have haddr := params?_le hm hparams
      -- Until the operand is read, it stays the next one of the innermost command.
      let Unread (m : Machine) : Prop :=
        Evolves .outward script first m ∧ m.nesting.params? = some params
      have hevolves : ∀ m, Unread m → Evolves .outward script first m := fun _ h => h.1
      have hread : Keeps Unread (atAddress params (readParamIfAny pointer target)) :=
        keeps_still (P := (·.params? = some params)) fun _ _ =>
          keeps_atAddress haddr (keeps_readParamIfAny pointer htarget)
      have hwarn : Keeps Unread (warn .missingParams) :=
        keeps_still (P := (·.params? = some params)) fun _ _ => keeps_warn _
      refine Action.Leads.seq hevolves hread (fun m reading m' hm hrun => ?_) ⟨hm, hparams⟩
      obtain ⟨found, reached⟩ := reading
      obtain ⟨hahead, hreached⟩ := readParamIfAny_bounds hm.1 haddr hrun
      refine .doUnless hevolves hwarn (.andThen (.modify fun m hm => ?_) fun _ => ih)
      exact hm.1.nest (.params hm.2 hahead hreached) rfl rfl

private theorem keeps_getParams : Keeps (Evolves .outward script first) getParams :=
  .get fun _ _ => .bind (keeps_copyParams _) fun _ => .pure _

/-! ## Narration -/

/-- Reading text writes variables in its blocks, and may open the handler of a pause. -/
theorem keeps_readText : Keeps (Evolves .handling script first) readText := by
  refine .get fun m₀ _ => .bind (keeps_markRead _) fun seen => .get fun m hm => ?_
  let setup : TextReader.Setup := { script := m.script, aliases := m.aliases, style := m.style }
  have hedits := TextReader.edits_read setup m.store m₀.pc m.narrow
  have hallowed :=
    hedits.mono fun _ _ hfits (_ : Nesting.Direction.handling.fitting = true) => hfits
  refine .bind (.set (hm.edit hallowed rfl rfl)) fun _ => ?_
  refine .ofExcept_bind fun delivery hdelivery => ?_
  have hnext : delivery.next ≤ script.size := by
    rw [← hm.script_eq]
    exact TextReader.next_read_le_size hdelivery
  refine .bind (keeps_warnAll _) fun _ => ?_
  refine .bind (.modify fun _ hm => hm.move hnext rfl rfl) fun _ => ?_
  refine .ite (fun _ => ?_) fun _ => .get fun m _ => ?_
  · refine .bind (.modify fun _ hm => hm.aside rfl rfl) fun _ => ?_
    exact .ite (fun _ => .pure _) fun _ => .pure _
  · cases m.textHook with
    | none => exact .pure _
    | some label =>
      refine .bind (keeps_pushFrame fun _ _ => .handler (.inl rfl) hnext) fun _ => ?_
      exact .bind (keeps_jumpTo _) fun _ => .pure _

private theorem keeps_readHook : Keeps (Evolves way script first) readHook := by
  refine .bind keeps_readLabel fun label => .get fun m _ => ?_
  exact .bind Keeps.ofExcept.discard fun _ => .pure _

/-- Choosing the handler of pauses only reads a label. -/
theorem keeps_setTextHook : Keeps (Evolves way script first) setTextHook :=
  .bind keeps_readHook fun _ => .bind (.modify fun _ hm => hm.aside rfl rfl) fun _ => .pure _

/-- So does choosing the handler of tags. -/
theorem keeps_setPretextHook : Keeps (Evolves way script first) setPretextHook :=
  .bind keeps_readHook fun _ => .bind (.modify fun _ hm => hm.aside rfl rfl) fun _ => .pure _

private theorem keeps_copyFields (targets : Nat) (fields : List Bytes) :
    Keeps (Evolves way script first) (copyFields targets fields) := by
  induction targets generalizing fields with
  | zero => exact .pure _
  | succ targets ih =>
    refine .get fun m _ => .ite (fun _ => ?_) fun _ => .pure _
    refine .bindReturns keeps_readVarRef returns_readVarRef fun target htarget => ?_
    exact .join (keeps_writeStr htarget _) (keeps_writeInt htarget _) fun _ => ih _

/-- The fields of a tag are written to variables. -/
theorem keeps_getTag : Keeps (Evolves way script first) getTag :=
  .get fun _ _ => .bind (keeps_copyFields _ _) fun _ => .pure _

/-- Choosing the click markers only reads operands. -/
theorem keeps_chooseClickMarkers : Keeps (Evolves way script first) chooseClickMarkers := by
  refine .bind keeps_readStr fun chars => .get fun m _ => .doIf keeps_readInt.discard ?_
  exact .bind (.modify fun _ hm => hm.aside rfl rfl) fun _ => .pure _

/-! ## Saved games -/

/-- A saved position is found inside the script. -/
theorem addressOf_le {m : Machine} {position : SavedPosition} {addr : Nat}
    (h : m.addressOf position = .ok addr) : addr ≤ m.script.size := by
  obtain ⟨base, -, h⟩ := Action.exists_of_bind_eq_ok h
  have haddress : ∀ offset, m.script.address offset = .ok addr → addr ≤ m.script.size := by
    intro offset hoffset
    rw [Script.address] at hoffset
    split at hoffset
    · next hle =>
      cases hoffset
      exact hle
    · cases hoffset
  dsimp only at h
  split at h
  · cases h
  · split at h
    · cases h
    · exact haddress _ h

private theorem ifPresent_eq_ok {α β : Type} {f : α → Except Fault β} {a? : Option α}
    {b? : Option β} (h : ifPresent f a? = .ok b?) : ∀ b ∈ b?, ∃ a, f a = .ok b := by
  cases a? with
  | none =>
    cases h
    intro b hb
    cases hb
  | some a =>
    obtain ⟨b, hb, h⟩ := Action.exists_of_bind_eq_ok h
    cases h
    intro b' hb'
    cases hb'
    exact ⟨a, hb⟩

private theorem bookmarkOf_le {m : Machine} {saved : SavedBookmark} {bookmark : Bookmark}
    (h : m.bookmarkOf saved = .ok bookmark) : bookmark.addr ≤ m.script.size := by
  obtain ⟨addr, haddr, h⟩ := Action.exists_of_bind_eq_ok h
  cases h
  exact addressOf_le haddr

private theorem frameOf_within {m : Machine} {saved : SavedFrame} {frame : Frame}
    (h : m.frameOf saved = .ok frame) : frame.Within m.script.size := by
  cases saved with
  | loop counter bound step body finished =>
    obtain ⟨addr, haddr, h⟩ := Action.exists_of_bind_eq_ok h
    cases h
    exact addressOf_le haddr
  | call code returnTo params bookmark =>
    rw [frameOf] at h
    split at h
    · cases h
    · obtain ⟨found, hfound, h⟩ := Action.exists_of_bind_eq_ok h
      obtain ⟨operands, hoperands, h⟩ := Action.exists_of_bind_eq_ok h
      obtain ⟨addr, haddr, h⟩ := Action.exists_of_bind_eq_ok h
      cases h
      refine ⟨addressOf_le haddr, fun operand hoperand => ?_, fun bookmark hbookmark => ?_⟩
      · obtain ⟨_, hposition⟩ := ifPresent_eq_ok hoperands operand hoperand
        exact addressOf_le hposition
      · obtain ⟨_, hsaved⟩ := ifPresent_eq_ok hfound bookmark hbookmark
        exact bookmarkOf_le hsaved

/-- Every frame that is found was saved. -/
theorem exists_of_mem_framesOf {m : Machine} {saved : List SavedFrame} {frames : List Frame}
    (h : m.framesOf saved = .ok frames) :
    ∀ frame ∈ frames, ∃ source ∈ saved, m.frameOf source = .ok frame := by
  induction saved generalizing frames with
  | nil =>
    cases h
    exact List.forall_mem_nil _
  | cons first saved ih =>
    obtain ⟨frame, hframe, h⟩ := Action.exists_of_bind_eq_ok h
    obtain ⟨rest, hrest, h⟩ := Action.exists_of_bind_eq_ok h
    cases h
    refine List.forall_mem_cons.mpr ⟨⟨first, List.mem_cons_self, hframe⟩, fun f hf => ?_⟩
    obtain ⟨source, hsource, hfound⟩ := ih hrest f hf
    exact ⟨source, List.mem_cons_of_mem _ hsource, hfound⟩

private theorem framesOf_within {m : Machine} {saved : List SavedFrame} {frames : List Frame}
    (h : m.framesOf saved = .ok frames) : ∀ frame ∈ frames, frame.Within m.script.size := by
  intro frame hframe
  obtain ⟨source, -, hfound⟩ := exists_of_mem_framesOf h frame hframe
  exact frameOf_within hfound

/-- Going on with a saved game is a change of place, variables and frames. -/
theorem Evolves.restore {m restored : Machine} (hm : Evolves .anew script first m) {save : Save}
    (h : m.restore save = .ok restored) : Evolves .anew script first restored := by
  obtain ⟨frames, pc, hframes, hpc, rfl⟩ := restore_eq_ok h
  obtain rfl := hm.script_eq
  have hwithin : ∀ frame ∈ frames.reverse, frame.Within m.script.size := fun frame hframe =>
    framesOf_within hframes frame (List.mem_reverse.mp hframe)
  have hstore : Evolves .anew m.script first { m with store := save.vars.restore m.store } :=
    hm.edit (SavedVariables.edits_restore nofun (fun _ _ _ _ _ => nofun)
      (fun _ _ _ _ _ => nofun) fun _ _ _ => nofun) rfl rfl
  have hnesting : Evolves .anew m.script first { m with
      store := save.vars.restore m.store
      nesting := { m.nesting with frames := frames.reverse } } :=
    hstore.nest (.resume hwithin) rfl rfl
  exact hnesting.move (addressOf_le hpc) rfl rfl

/-- Writing the persistent files evolves the machine by nothing but a change of the files. -/
theorem keeps_savePersistent : Keeps (Evolves way script first) savePersistent :=
  keeps_savePersistent_of fun _ _ hm => hm.aside rfl rfl

/-- So does writing a save slot. -/
theorem keeps_saveSlot (slot : Int32) (resume : Nat) (description : Option Bytes) :
    Keeps (Evolves way script first) (saveSlot slot resume description) :=
  keeps_saveSlot_of (fun _ _ hm => hm.aside rfl rfl) slot resume description

/-- Loading a slot puts the saved game in the place of the one that is played. -/
theorem keeps_loadSlot (slot : Int32) : Keeps (Evolves .anew script first) (loadSlot slot) := by
  refine .get fun m hm => .ofExcept_bind fun _ _ => ?_
  split
  · exact .throw _
  · exact .ofExcept_bind fun save _ => .ofExcept_bind fun restored h => .set (hm.restore h)

/-- Saving the game only reads operands and writes files. -/
theorem keeps_saveGame : Keeps (Evolves way script first) saveGame := by
  refine .bind keeps_readInt fun slot => .get fun m _ => ?_
  refine .join (.map _ keeps_readStr) (.pure _) fun description => .get fun m _ => ?_
  exact .bind (keeps_saveSlot _ _ _) fun _ => .bind keeps_savePersistent fun _ => .pure _

private theorem keeps_loadGame : Keeps (Evolves .anew script first) loadGame := by
  refine .bind keeps_readInt fun slot => .get fun m _ => .ofExcept_bind fun _ _ => ?_
  refine .ite (fun _ => .bind (keeps_loadSlot _) fun _ => .pure _) fun _ => ?_
  exact .bind (keeps_warn _) fun _ => .pure _

/-- Testing a slot writes the answer to a variable. -/
theorem keeps_testSlot : Keeps (Evolves way script first) testSlot := by
  refine .bindReturns keeps_readIntTarget returns_readIntTarget fun target htarget => ?_
  refine .bind keeps_readInt fun slot => .get fun m _ => ?_
  exact .ofExcept_bind fun _ _ => .bind (keeps_writeInt htarget.2 _) fun _ => .pure _

/-! ## Steps -/

/-- Every built-in command changes the core only by the listed changes. -/
theorem keeps_execute (command : Command) :
    Keeps (Evolves command.direction script first) (execute command) := by
  cases command with
  | mov => exact keeps_assign
  | add | sub | mul | div | mod => exact keeps_arithmetic _
  | inc | dec => exact keeps_increase _
  | cmp => exact keeps_compareStrings
  | itoa => exact keeps_integerToString
  | atoi => exact keeps_stringToInteger
  | len => exact keeps_stringLength
  | mid => exact keeps_substring
  | rnd => exact keeps_randomBelow
  | rnd2 => exact keeps_randomBetween
  | intlimit => exact keeps_limitVariable
  | dim => exact keeps_declareArray
  | numalias => exact keeps_nameNumber
  | stralias => exact keeps_nameString
  | goto => exact keeps_gotoLabel
  | gosub => exact keeps_gosub
  | returnCall => exact keeps_returnFromCall
  | rgosub => exact keeps_handlerGosub
  | forLoop => exact keeps_openLoop
  | next => exact keeps_loopAgain
  | breakLoop => exact keeps_breakLoop
  | ifHolds | notIf => exact keeps_conditional _
  | jumpf => exact keeps_jumpForward
  | jumpb => exact keeps_jumpBackward
  | skip => exact keeps_skipLines
  | endScript | reset => exact .pure _
  | game => exact keeps_startGame
  | defsub => exact keeps_defineSubroutine
  | getparam => exact keeps_getParams
  | textgosub => exact keeps_setTextHook
  | pretextgosub => exact keeps_setPretextHook
  | gettag => exact keeps_getTag
  | clickstr => exact keeps_chooseClickMarkers
  | labellog => exact .bind (.modify fun _ hm => hm.log .enableLabels rfl) fun _ => .pure _
  | filelog => exact .bind (.modify fun _ hm => hm.log .enableFiles rfl) fun _ => .pure _
  | globalon | kidokuskip => exact .bind (.modify fun _ hm => hm.aside rfl rfl) fun _ => .pure _
  | savegame => exact keeps_saveGame
  | loadgame => exact keeps_loadGame
  | savefileexist => exact keeps_testSlot

/-- The end of a statement is a warning at most, and a place further on. -/
theorem keeps_endStatement : Keeps (Evolves way script first) endStatement := by
  refine .get fun m hm => ?_
  have hpos : m.script.skipBlanks m.cursor ≤ script.size := by
    rw [hm.script_eq]
    exact Script.skipBlanks_le_size hm.cursor_le
  refine .join (keeps_moveTo ?_) (keeps_moveTo hpos) fun _ => ?_
  · rw [hm.script_eq] at hpos ⊢
    exact Script.skipStatement_le_size _ hpos
  · exact .ite (fun _ => keeps_warn _) fun _ => .pure _

private theorem keeps_restart : Keeps (Evolves .outward script first) restart := by
  refine .bind (.modify fun m hm => ?_) fun _ => keeps_jumpTo _
  have hstore : Evolves .outward script first { m with store := m.store.reset } :=
    hm.edit (.single .reset (fun _ => trivial) rfl) rfl rfl
  exact hstore.nest (.close List.nil_suffix) rfl rfl

private theorem keeps_finishProgram : Keeps (Evolves way script first) finishProgram := by
  refine .get fun m _ => .ite (fun _ => .pure _) fun _ => ?_
  exact .bind (.modify fun _ hm => hm.aside rfl rfl) fun _ => keeps_savePersistent

/-- What follows a command is the end of its statement, or a game that begins again, which goes
outward. -/
theorem keeps_complete (outcome : Outcome) (h : outcome = .restart → way = .outward) :
    Keeps (Evolves way script first) (complete outcome) := by
  cases outcome with
  | advance => exact .bind keeps_endStatement fun _ => .pure _
  | skipLine =>
    refine .bind (.modify fun m hm => hm.move ?_ rfl rfl) fun _ => .pure _
    rw [← hm.script_eq]
    exact Script.lineEnd_le_size _ _
  | stay => exact .pure _
  | restart =>
    obtain rfl := h rfl
    exact .bind keeps_restart fun _ => .pure _
  | stop => exact .bind keeps_finishProgram fun _ => .pure _

/-- A call does not restart the game. -/
theorem returns_callLabel (label : String) : Returns (callLabel label) (· ≠ .restart) :=
  .bind fun _ => .bind fun _ => .bind fun _ => .pure (by decide)

/-- Neither does a call out of a handler. -/
theorem returns_handlerGosub : Returns handlerGosub (· ≠ .restart) := by
  refine .bind fun label => .bind fun m => ?_
  cases m.nesting.bookmark? with
  | some bookmark => exact .bind fun _ => .bind fun _ => .pure (by decide)
  | none => exact .bind fun _ => returns_callLabel label

/-- Neither does a loop. -/
theorem returns_openLoop : Returns openLoop (· ≠ .restart) := by
  refine .bind fun _ => .bind fun _ => .bind fun _ => .bind fun _ => .ite ?_ .fail
  refine .bind fun _ => .bind fun _ => .join fun _ => .ite .fail ?_
  refine .bind fun _ => .bind fun _ => .bind fun _ => .ite ?_ ?_
  · exact .bind fun _ => .bind fun _ => .bind fun _ => .pure (by decide)
  · exact .bind fun _ => .pure (by decide)

private theorem returns_loadGame : Returns loadGame (· ≠ .restart) := by
  refine .bind fun _ => .bind fun _ => .bind fun _ => .ite ?_ ?_
  · exact .bind fun _ => .pure (by decide)
  · exact .bind fun _ => .pure (by decide)

/-- A command that opens something, or loads a game, does not start the game anew. -/
theorem returns_execute (command : Command) :
    Returns (execute command) fun outcome => outcome = .restart → command.direction = .outward := by
  have hweaken : ∀ {x : Run Outcome}, Returns x (· ≠ .restart) →
      Returns x fun outcome => outcome = .restart → command.direction = .outward :=
    fun hx m outcome m' hrun hrestart => absurd hrestart (hx m outcome m' hrun)
  cases command with
  | gosub => exact hweaken (.bind fun label => returns_callLabel label)
  | rgosub => exact hweaken returns_handlerGosub
  | forLoop => exact hweaken returns_openLoop
  | loadgame => exact hweaken returns_loadGame
  | _ => exact fun _ _ _ _ _ => rfl

/-- A command word changes what is open in one direction only. -/
theorem leads_runCommand {start operands : Nat} (hstart : start ≤ script.size)
    (hoperands : operands ≤ script.size) (table : CommandTable) (word : CommandWord) :
    Leads (fun m => Evolves (table.directionOf word) script first m ∧ m.commands = table)
      (Evolves (table.directionOf word) script first) (runCommand start operands word) := by
  refine .keep (fun _ hm => hm.1) (.modify fun _ hm => ⟨hm.1.aside rfl rfl, hm.2⟩) fun _ => ?_
  refine .get fun m hm => .ofKeeps (fun _ hm => hm.1) ?_
  rw [hm.2]
  unfold CommandTable.directionOf
  cases table.resolve word with
  | builtin command =>
    refine .bind (keeps_markRead _).discard fun _ => .bind (keeps_moveTo hoperands) fun _ => ?_
    refine .seq (keeps_execute command) fun m outcome m' _ hrun => keeps_complete outcome ?_
    exact returns_execute command m outcome m' hrun
  | subroutine label =>
    refine .bind (keeps_markRead _).discard fun _ => .get fun m hm => ?_
    refine .bind (keeps_pushFrame fun _ _ => .command (hm.statementEnd_le _) hoperands) fun _ => ?_
    exact .bind (keeps_jumpTo _) fun _ => .pure _
  | host name =>
    refine .bind (keeps_markRead _).discard fun _ => ?_
    exact .bind (.modify fun _ hm => hm.move hoperands rfl rfl) fun _ => .pure _
  | unknown =>
    refine .ite (fun _ => .throw _) fun _ => ?_
    exact .bind (.modify fun _ hm => hm.move hstart rfl rfl) fun _ => keeps_readText

private theorem keeps_runTag {next : Nat} (start : Nat) (hnext : next ≤ script.size) (tag : Bytes) :
    Keeps (Evolves .handling script first) (runTag start next tag) := by
  refine .bind (keeps_markRead _).discard fun _ => ?_
  refine .bind (.modify fun _ hm => hm.move hnext rfl rfl) fun _ => .get fun m _ => ?_
  cases m.pretextHook with
  | some label =>
    refine .bind (keeps_pushFrame fun _ _ => .handler (.inr rfl) hnext) fun _ => ?_
    exact .bind (keeps_jumpTo _) fun _ => .pure _
  | none => exact .bind (.modify fun _ hm => hm.aside rfl rfl) fun _ => .pure _

/-- The direction in which the statement at the current address changes what is open. -/
def statementDirection (m : Machine) : Nesting.Direction :=
  match (m.script.statementAt m.pc m.pretextHook.isSome).kind with
  | .command word => m.commands.directionOf word
  | .text | .pretextTag _ => .handling
  | .endOfScript | .comment | .endOfLine | .sectionMarker | .label _ => .still

/-- A statement changes what is open in one direction only. -/
theorem evolves_runStatement {m : Machine} (hway : m.statementDirection = way)
    (hfirst : m.statementStart = first.statementStart) (hm : Evolves way script first m) :
    Evolves way script first (Action.after runStatement m) := by
  obtain rfl := hm.script_eq
  obtain ⟨hstart, hnext⟩ := m.script.statementAt_le_size m.pc m.pretextHook.isSome
  have hbegin : Evolves way m.script first { m with
      statementStart := (m.script.statementAt m.pc m.pretextHook.isSome).start
      statementName := none } := hm.begin hfirst hstart rfl rfl
  let Begun (m' : Machine) : Prop := Evolves way m.script first m' ∧ m'.commands = m.commands
  have hbegun : ∀ m', Begun m' → Evolves way m.script first m' := fun _ h => h.1
  have hsame : ∀ warnings, Keeps (fun m' : Machine => m'.commands = m.commands) (warnAll warnings) :=
    keeps_warnAll_of fun _ _ _ h => h
  have hwarn : ∀ warnings, Keeps Begun (warnAll warnings) := fun warnings _ h =>
    ⟨keeps_warnAll warnings h.1, hsame warnings h.2⟩
  refine Leads.keep hbegun (hwarn _) (fun _ => ?_) ⟨hbegin, rfl⟩
  rw [statementDirection] at hway
  cases hkind : (m.script.statementAt m.pc m.pretextHook.isSome).kind with
  | command word =>
    rw [hkind] at hway
    subst hway
    exact leads_runCommand hstart hnext m.commands word
  | endOfScript => exact .ofKeeps hbegun (.bind keeps_finishProgram fun _ => .pure _)
  | comment | endOfLine => exact .ofKeeps hbegun (.bind (keeps_moveTo hnext) fun _ => .pure _)
  | sectionMarker =>
    refine .ofKeeps hbegun (.bind (.modify fun m' hm' => ?_) fun _ => .pure _)
    have hpass : Evolves way m.script first { m' with
        lastSection := some (m.script.statementAt m.pc m.pretextHook.isSome).next } :=
      hm'.step (.pass (hm'.inside.script.symm ▸ hnext)) rfl rfl
    exact hpass.move hnext rfl rfl
  | label name =>
    refine .ofKeeps hbegun (.bind (.modify fun m' hm' => ?_) fun _ => .pure _)
    have hlog : Evolves way m.script first { m' with labelLog := m'.labelLog.record name } :=
      hm'.log (.label hkind) rfl
    exact hlog.move hnext rfl rfl
  | pretextTag tag =>
    rw [hkind] at hway
    subst hway
    exact .ofKeeps hbegun (keeps_runTag _ hnext tag)
  | text =>
    rw [hkind] at hway
    subst hway
    refine .ofKeeps hbegun (.bind (.modify fun _ hm => hm.move hstart rfl rfl) fun _ => ?_)
    exact keeps_readText

end NovelScript.Machine
