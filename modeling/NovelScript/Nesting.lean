import NovelScript.TextRun

/-!
# Nesting of calls and loops

Calls and loops live on one stack, so that a return inside an open loop and a loop end inside an
open call are noticed. The innermost frame is the first of the list.
-/

namespace NovelScript

/-- Where a line of text goes on after a call interrupted it. -/
structure Bookmark where
  /-- The next byte of the text. -/
  addr : Nat
  /-- Whether narrow mode is on there. -/
  narrow : Bool
  /-- The pause that led to the call. -/
  stop : Pause
  deriving DecidableEq, Repr

/-- How a call came about. -/
inductive CallKind where
  /-- A call of a label. -/
  | gosub
  /-- A command that the script defines. -/
  | subroutine
  /-- The handler of a pause in text. -/
  | textGosub
  /-- The handler of a tag in front of text. -/
  | pretext
  /-- A call out of the handler of a pause, which returns to the text. -/
  | rgosub
  deriving DecidableEq, Repr

namespace CallKind

/-- The number of a call kind in save files. -/
def code : CallKind → UInt8
  | gosub => 0
  | subroutine => 1
  | textGosub => 2
  | pretext => 3
  | rgosub => 4

/-- The call kind with a number. -/
def ofCode? (code : UInt8) : Option CallKind :=
  match code.toNat with
  | 0 => some gosub
  | 1 => some subroutine
  | 2 => some textGosub
  | 3 => some pretext
  | 4 => some rgosub
  | _ => none

/-- The code of a kind of call tells the kind. -/
theorem ofCode?_code (kind : CallKind) : ofCode? kind.code = some kind := by
  cases kind <;> rfl

end CallKind

/-- An open call. -/
structure CallFrame where
  /-- How it came about. -/
  kind : CallKind
  /-- Where execution goes on after it. -/
  returnTo : Nat
  /-- The next operand that a subroutine command has not read. -/
  params : Option Nat := none
  /-- The text that it interrupted. -/
  bookmark : Option Bookmark := none
  deriving DecidableEq, Repr

namespace CallFrame

/-- A call that interrupts text. -/
def ofBookmark (kind : CallKind) (bookmark : Bookmark) : CallFrame :=
  { kind, returnTo := bookmark.addr, bookmark := some bookmark }

end CallFrame

/-- An open loop. -/
structure LoopFrame where
  /-- The counter. -/
  counter : VariableRef
  /-- The last value of the counter for which the body runs. -/
  bound : Int32
  /-- What each pass adds to the counter. -/
  step : Int32
  /-- The first statement of the body. -/
  body : Nat
  /-- Whether the body must not run again. -/
  finished : Bool
  deriving DecidableEq, Repr

namespace LoopFrame

/-- Whether a value of the counter is beyond the bound, in the direction of the step. -/
def isPast (frame : LoopFrame) (value : Int32) : Bool :=
  if 0 ≤ frame.step then frame.bound < value else value < frame.bound

end LoopFrame

/-- An open call or loop. -/
inductive Frame where
  /-- A call. -/
  | call (frame : CallFrame)
  /-- A loop. -/
  | loop (frame : LoopFrame)
  deriving DecidableEq, Repr

namespace Frame

/-- The call, if the frame is a call of the given kind. -/
def callOf? (kind : CallKind) : Frame → Option CallFrame
  | call frame => if frame.kind = kind then some frame else none
  | loop _ => none

end Frame

/-- All open calls and loops. -/
structure Nesting where
  /-- The frames, innermost first. -/
  frames : List Frame := []
  /-- Most frames that there may be, if there is a cap. -/
  cap : Option Nat := none
  deriving DecidableEq, Repr

namespace Nesting

/-- Number of open calls and loops. -/
def depth (nesting : Nesting) : Nat :=
  nesting.frames.length

/-- Opens a call or a loop. -/
def push (nesting : Nesting) (frame : Frame) : Except Fault Nesting :=
  match nesting.cap with
  | none => .ok { nesting with frames := frame :: nesting.frames }
  | some cap =>
    if cap ≤ nesting.depth then .error (.nestingTooDeep cap)
    else .ok { nesting with frames := frame :: nesting.frames }

/-- Closes the innermost frame, which must be a call. -/
def popCall (nesting : Nesting) : Except Fault (CallFrame × Nesting) :=
  match nesting.frames with
  | .call frame :: frames => .ok (frame, { nesting with frames })
  | .loop _ :: _ => .error .returnInLoop
  | [] => .error .returnWithoutCall

/-- The innermost frame, which must be a loop. -/
def topLoop (nesting : Nesting) : Except Fault LoopFrame :=
  match nesting.frames with
  | .loop frame :: _ => .ok frame
  | .call _ :: _ => .error .nextInCall
  | [] => .error .nextWithoutLoop

/-- Closes the innermost frame, which must be a loop. -/
def popLoop (nesting : Nesting) : Except Fault (LoopFrame × Nesting) := do
  let frame ← nesting.topLoop
  return (frame, { nesting with frames := nesting.frames.tail })

/-- Marks the innermost frame, which must be a loop, as finished. -/
def finishLoop (nesting : Nesting) : Except Fault Nesting := do
  let frame ← nesting.topLoop
  let finished := Frame.loop { frame with finished := true }
  return { nesting with frames := finished :: nesting.frames.tail }

/-- Whether the innermost frame is a loop. -/
def topIsLoop (nesting : Nesting) : Bool :=
  match nesting.frames with
  | .loop _ :: _ => true
  | _ => false

/-- The innermost call of a kind. -/
def innermost? (nesting : Nesting) (kind : CallKind) : Option CallFrame :=
  nesting.frames.findSome? (Frame.callOf? kind)

/-- The next unread operand of the innermost subroutine command. -/
def params? (nesting : Nesting) : Option Nat :=
  (nesting.innermost? .subroutine).bind CallFrame.params

/-- Changes the next unread operand of the first subroutine command of a list of frames. -/
def setParamsIn (addr : Nat) : List Frame → List Frame
  | [] => []
  | .call frame :: frames =>
    if frame.kind = .subroutine then .call { frame with params := some addr } :: frames
    else .call frame :: setParamsIn addr frames
  | .loop frame :: frames => .loop frame :: setParamsIn addr frames

/-- Changes the next unread operand of the innermost subroutine command. -/
def setParams (nesting : Nesting) (addr : Nat) : Nesting :=
  { nesting with frames := setParamsIn addr nesting.frames }

/-- The text that the innermost handler of a pause interrupted. -/
def bookmark? (nesting : Nesting) : Option Bookmark :=
  nesting.frames.findSome? fun frame => (frame.callOf? .textGosub).bind CallFrame.bookmark

/-- Closes all frames down to the innermost handler of a pause, that one included. Without one
nothing changes. -/
def unwindHandler (nesting : Nesting) : Nesting :=
  if (nesting.innermost? .textGosub).isSome then
    { nesting with
      frames := (nesting.frames.dropWhile fun f => (f.callOf? .textGosub).isNone).tail }
  else nesting

/-- Closes everything. -/
def clear (nesting : Nesting) : Nesting :=
  { nesting with frames := [] }

end Nesting

end NovelScript
