import NovelScript.Machine.Variables

/-!
# Control flow

Jumps, calls, loops, conditions and sections, and the parameters of subroutine commands.
-/

namespace NovelScript

/-- A comparison operator. -/
inductive Comparison where
  /-- Greater or equal. -/
  | ge
  /-- Less or equal. -/
  | le
  /-- Equal. -/
  | eq
  /-- Not equal. -/
  | ne
  /-- Less. -/
  | lt
  /-- Greater. -/
  | gt
  deriving DecidableEq, Repr

namespace Comparison

/-- The operators as written, the longer ones first. -/
def tokens : List (Bytes × Comparison) :=
  [([0x3e, 0x3d], ge), ([0x3c, 0x3d], le), ([0x3d, 0x3d], eq), ([0x21, 0x3d], ne),
   ([0x3c, 0x3e], ne), ([0x3d], eq), ([0x3c], lt), ([0x3e], gt)]

/-- Whether the comparison holds between things in the given order. -/
def holds (comparison : Comparison) (order : Ordering) : Bool :=
  match comparison with
  | ge => order != .lt
  | le => order != .gt
  | eq => order == .eq
  | ne => order != .eq
  | lt => order == .lt
  | gt => order == .gt

end Comparison

/-- The end of a loop, found in the text of a script. -/
structure LoopEnd where
  /-- Its statement. -/
  start : Nat
  /-- The address after it. -/
  after : Nat
  deriving DecidableEq, Repr

namespace Script

/-- Looks for the end of a loop from `addr` on, past the ends of `depth` inner loops. Commands are
told by their names alone, and text lines are passed over. -/
def loopEndWithin (s : Script) : (statements depth addr : Nat) → Option LoopEnd
  | 0, _, _ => none
  | statements + 1, depth, addr =>
    let statement := s.statementAt addr false
    match statement.kind with
    | .endOfScript => none
    | .command word =>
      let after := s.skipStatement false statement.next
      if word.name = "for" then loopEndWithin s statements (depth + 1) after
      else if word.name = "next" then
        match depth with
        | 0 => some { start := statement.start, after }
        | depth + 1 => loopEndWithin s statements depth after
      else loopEndWithin s statements depth after
    | .text => loopEndWithin s statements depth (s.lineEnd statement.start)
    | _ => loopEndWithin s statements depth statement.next

/-- The end of the loop whose body holds `addr`. Every statement takes at least one byte, which
bounds their number. -/
def loopEnd (s : Script) (addr : Nat) : Except Fault LoopEnd :=
  match s.loopEndWithin (s.size - addr + 1) 0 addr with
  | some found => .ok found
  | none => .error .noMatchingNext

/-- The address after the next section marker. -/
def sectionAfter? (s : Script) (pos : Nat) : Option Nat :=
  let marker := s.advanceChars false (· == Byte.tilde) pos
  if s.isAt marker Byte.tilde then some (marker + 1) else none

end Script

namespace Machine

/-- Jumps to a label. -/
def gotoLabel : Run Outcome := do
  let label ← readLabel
  jumpTo label
  return .stay

/-- Opens a call that returns after the current statement, and jumps to a label. -/
def callLabel (label : String) : Run Outcome := do
  let m ← get
  pushFrame (.call { kind := .gosub, returnTo := m.statementEnd m.pc })
  jumpTo label
  return .stay

/-- Calls a label. -/
def gosub : Run Outcome := do
  let label ← readLabel
  callLabel label

/-- Goes on where a closed call came from. -/
def leaveCall (frame : CallFrame) : Run Unit := do
  match frame.kind, frame.bookmark with
  | .textGosub, some bookmark | .pretext, some bookmark => resumeText bookmark
  | .rgosub, some bookmark =>
    modify fun m => { m with nesting := m.nesting.unwindHandler }
    resumeText bookmark
  | _, _ => modify fun m => { m with pc := frame.returnTo, inText := false }

/-- Returns from a call, or leaves it and jumps to a label. -/
def returnFromCall : Run Outcome := do
  let target ← if (← get).hasMore then some <$> readLabel else pure none
  let (frame, nesting) ← Action.ofExcept (← get).nesting.popCall
  modify fun m => { m with nesting }
  match target with
  | some label => jumpTo label
  | none => leaveCall frame
  return .stay

/-- Calls a label out of the handler of a pause; the return goes straight to the text. Outside a
handler it is an ordinary call. -/
def handlerGosub : Run Outcome := do
  let label ← readLabel
  match (← get).nesting.bookmark? with
  | some bookmark =>
    pushFrame (.call (.ofBookmark .rgosub bookmark))
    jumpTo label
    return .stay
  | none =>
    warn .handlerCallOutside
    callLabel label

/-- Opens a loop. If the counter starts beyond the bound, the body is passed over. -/
def openLoop : Run Outcome := do
  let counter ← readIntTarget
  expectToken "="
  let start ← readInt
  unless ← eatKeyword "to" do throw .loopBoundExpected
  let bound ← readInt
  let step ← if ← eatKeyword "step" then readInt else pure 1
  if step = 0 then throw .zeroStep
  writeInt counter start
  let value ← valueOf counter
  let m ← get
  let body := m.statementEnd m.pc
  let frame : LoopFrame := { counter, bound, step, body, finished := false }
  if frame.isPast value then
    let found ← Action.ofExcept (m.script.loopEnd body)
    pushFrame (.loop { frame with finished := true })
    moveTo found.start
    return .stay
  else
    pushFrame (.loop frame)
    return .advance

/-- Closes the innermost loop. -/
def closeLoop : Run Unit := do
  let (_, nesting) ← Action.ofExcept (← get).nesting.popLoop
  modify fun m => { m with nesting }

/-- The end of a loop: steps the counter and runs the body again, unless the loop is finished. -/
def loopAgain : Run Outcome := do
  let frame ← Action.ofExcept (← get).nesting.topLoop
  if frame.finished then
    closeLoop
    return .advance
  else
    let value ← valueOf frame.counter
    writeInt frame.counter (value + frame.step)
    let reached ← valueOf frame.counter
    if frame.isPast reached then
      closeLoop
      return .advance
    else
      moveTo frame.body
      return .stay

/-- Leaves the innermost loop, at its end or with a jump to a label. -/
def breakLoop : Run Outcome := do
  if (← get).hasMore then
    let label ← readLabel
    if (← get).nesting.topIsLoop then closeLoop
    else warn .breakOutside
    jumpTo label
  else
    let m ← get
    let found ← Action.ofExcept (m.script.loopEnd (m.statementEnd m.pc))
    if m.nesting.topIsLoop then
      let nesting ← Action.ofExcept m.nesting.finishLoop
      modify fun m => { m with nesting }
      moveTo found.start
    else
      warn .breakSkips
      moveTo found.after
  return .stay

/-- Reads a comparison operator out of a list, if one is next. -/
def readComparisonOf : List (Bytes × Comparison) → Run (Option Comparison)
  | [] => return none
  | (token, comparison) :: rest => do
    if ← eatToken token then return some comparison
    else readComparisonOf rest

/-- Reads a comparison operator, if one is next. -/
def readComparison : Run (Option Comparison) :=
  readComparisonOf Comparison.tokens

/-- One term of a condition: a look into the file log or the label log, a comparison of strings or
of integers, or an integer that must not be zero. -/
def conditionTerm : Run Bool := do
  if ← eatKeyword "fchk" then
    let name ← readStr
    let m ← get
    return m.fileLog.contains (m.script.encoding.display name m.table)
  else if ← eatKeyword "lchk" then
    let label ← readLabel
    return (← get).labelLog.contains label
  else if (← get).atString then
    let lhs ← readStr
    match ← readComparison with
    | none => throw .comparisonExpected
    | some comparison =>
      let rhs ← readStr
      return comparison.holds (Bytes.order lhs rhs)
  else
    let lhs ← readInt
    match ← readComparison with
    | none => return lhs != 0
    | some comparison =>
      let rhs ← readInt
      return comparison.holds (compareOfLessAndEq lhs rhs)

/-- The terms of a condition after the first; `result` is whether those so far hold. All terms
are read, whatever the result. Every term takes at least one byte, which bounds their number
(`conditionTail_eq_of_size_lt`). -/
def conditionTail : (terms : Nat) → (result : Bool) → Run Bool
  | 0, result => return result
  | terms + 1, result => do
    let double ← eatToken [0x26, 0x26]
    let joined ← if double then pure true else eatToken [0x26]
    if joined then
      let term ← conditionTerm
      conditionTail terms (result && term)
    else return result

/-- Reads a condition. The rest of the line is executed if the condition is `expected`, and
passed over otherwise. -/
def conditional (expected : Bool) : Run Outcome := do
  let first ← conditionTerm
  let m ← get
  let result ← conditionTail (m.script.size - m.cursor + 1) first
  if result == expected then return .stay else return .skipLine

/-- Goes on after the next section marker. -/
def jumpForward : Run Outcome := do
  let m ← get
  match m.script.sectionAfter? m.cursor with
  | none => throw .noSectionAhead
  | some target =>
    set { m with lastSection := some target, pc := target }
    return .stay

/-- Goes back to the last section marker. -/
def jumpBackward : Run Outcome := do
  match (← get).lastSection with
  | none => throw .noSectionBehind
  | some target =>
    moveTo target
    return .stay

/-- Moves a number of lines down or up. -/
def skipLines : Run Outcome := do
  let n ← readInt
  let m ← get
  let line := m.script.lineStart m.pc
  if 0 ≤ n then
    moveTo (m.script.linesDown n.toInt.toNat line)
  else
    match m.script.linesUp? n.toInt.natAbs line with
    | none => throw (.skipBeforeStart n)
    | some target => moveTo target
  return .stay

/-- Ends the definitions and starts the game. -/
def startGame : Run Outcome := do
  jumpTo "start"
  return .stay

/-- Makes a name a command that runs the label of the same name. -/
def defineSubroutine : Run Outcome := do
  let name ← readName
  modify fun m => { m with commands := m.commands.define name name }
  return .advance

/-- Whether the number of a variable is asked for, instead of its value. -/
inductive ParamPointer where
  /-- The number of an integer variable. -/
  | int
  /-- The number of a string variable. -/
  | str
  deriving DecidableEq, Repr

/-- Passes over the letter in front of a target that asks for the number of a variable. -/
def eatPointer : Run (Option ParamPointer) := do
  let m ← get
  let pos := m.script.skipBlanks m.cursor
  if m.script.isAt (pos + 1) Byte.percent then
    if m.script.holdsAt pos (Byte.lower · == 0x69) then
      moveTo (pos + 1)
      return some .int
    else if m.script.holdsAt pos (Byte.lower · == 0x73) then
      moveTo (pos + 1)
      return some .str
    else return none
  else return none

/-- Reads an operand of the calling statement into a variable. -/
def readParam (pointer : Option ParamPointer) (target : VariableRef) : Run Unit := do
  match pointer with
  | some .int =>
    match ← readVarRef with
    | .int n => writeInt target (Int32.ofNat n)
    | other => throw (.mismatch .integerVariable other.kind)
  | some .str =>
    match ← readVarRef with
    | .str n => writeInt target (Int32.ofNat n)
    | other => throw (.mismatch .stringVariable other.kind)
  | none =>
    if target.isStr then
      let value ← readStr
      writeStr target value
    else
      let value ← readInt
      writeInt target value

/-- Reads an operand of the calling statement into a variable, if there is another one. -/
def readParamIfAny (pointer : Option ParamPointer) (target : VariableRef) : Run Bool := do
  if (← get).hasMore then
    readParam pointer target
    return true
  else return false

/-- Copies the operands of the calling statement to the targets of the current one, at most
`targets` of them. Every target takes at least one byte, which bounds their number
(`copyParams_eq_of_size_lt`). -/
def copyParams : (targets : Nat) → Run Unit
  | 0 => return ()
  | targets + 1 => do
    if (← get).hasMore then
      let pointer ← eatPointer
      let target ← readVarRef
      if pointer.isSome && target.isStr then throw (.mismatch .integerVariable target.kind)
      match (← get).nesting.params? with
      | none => throw .paramsOutsideCall
      | some params =>
        let (found, after) ← atAddress params (readParamIfAny pointer target)
        unless found do warn .missingParams
        modify fun m => { m with nesting := m.nesting.setParams after }
        copyParams targets

/-- Copies the operands of the subroutine command that is executed to variables. -/
def getParams : Run Outcome := do
  let m ← get
  copyParams (m.script.size - m.cursor + 1)
  return .advance

end Machine

end NovelScript
