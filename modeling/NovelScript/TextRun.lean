import NovelScript.Operand

/-!
# Runs of narrative text

A line of text is delivered in runs, split at every pause. A run is a list of pieces: characters,
colours, buttons, timed waits and changes of mode. Variables are interpolated, and a block in
braces assigns to variables while the text is read.

A pause is written explicitly, or follows by itself after a click marker. A second pause right
after a click marker takes the place of the automatic one.
-/

namespace NovelScript

/-- Why a run of text ends. -/
inductive Pause where
  /-- Wait for a click. -/
  | clickWait
  /-- Wait for a click and clear the page. -/
  | newPage
  /-- The automatic pause after a click marker. -/
  | clickWaitOrNewPage
  /-- The end of the line. -/
  | endOfLine
  deriving DecidableEq, Repr

/-- A part of a run of text. -/
inductive TextPiece where
  /-- Characters to show. -/
  | chars (bytes : Bytes)
  /-- Colour of what follows. -/
  | colour (red green blue : UInt8)
  /-- Start of a button with a number. -/
  | buttonStart (id : Int32)
  /-- End of the open button. -/
  | buttonEnd
  /-- A wait in milliseconds. -/
  | wait (ms : Int32) (skippable : Bool)
  /-- Speed of what follows, or the default speed. -/
  | speed (value : Option Int32)
  /-- Narrow mode is on or off from here. -/
  | narrowMode (on : Bool)
  deriving DecidableEq, Repr

/-- A run of text up to a pause. -/
structure TextRun where
  /-- What to show, in order. -/
  pieces : List TextPiece
  /-- The pause at its end. -/
  stop : Pause
  /-- Address of its first byte. -/
  start : Nat
  /-- Whether it was read before. -/
  seen : Bool := false
  /-- Whether a handler of the script takes care of the pause. -/
  handled : Bool := false
  deriving DecidableEq, Repr

namespace TextPiece

/-- The characters of a piece. -/
def text : TextPiece → Bytes
  | chars bytes => bytes
  | _ => []

/-- Adds characters at the end, joined to the characters that are there. -/
def pushChars : List TextPiece → Bytes → List TextPiece
  | [], bytes => [chars bytes]
  | [chars last], bytes => [chars (last ++ bytes)]
  | piece :: pieces, bytes => piece :: pushChars pieces bytes

end TextPiece

/-- All characters of a run. -/
def TextRun.text (run : TextRun) : Bytes :=
  run.pieces.flatMap TextPiece.text

/-- How text is cut and numbers are shown. -/
structure TextStyle where
  /-- The characters after which text pauses by itself. -/
  clickMarkers : List Bytes
  /-- Whether interpolated numbers have full-width digits. -/
  wideDigits : Bool
  /-- Least number of digits of interpolated numbers. -/
  numberPad : Nat
  deriving DecidableEq, Repr

namespace TextStyle

/-- Makes the characters of a string the click markers. -/
def setClickMarkers (style : TextStyle) (bytes : Bytes) (encoding : Encoding) : TextStyle :=
  { style with clickMarkers := encoding.chars bytes }

/-- Whether a character is a click marker. -/
def isClickMarker (style : TextStyle) (char : Bytes) : Bool :=
  style.clickMarkers.contains char

end TextStyle

namespace Script

/-- Whether the sigil at `pos` starts a variable in text: a number or another sigil follows, or,
except for an array, a name. -/
def startsVariable (s : Script) (pos : Nat) : Bool :=
  match s.byte? (pos + 1) with
  | none => false
  | some b =>
    if Byte.isDigit b || b == Byte.percent || b == Byte.question then true
    else Byte.isNameStart b && !s.isAt pos Byte.question

/-- Whether the brace at `pos` opens an assignment block. -/
def startsBlock (s : Script) (pos : Nat) : Bool :=
  s.holdsAt (s.skipBlanks (pos + 1)) Byte.isSigil

/-- The value of the two hexadecimal digits at `pos`. -/
def hexPair? (s : Script) (pos : Nat) : Option UInt8 := do
  let high ← (← s.byte? pos) |> Byte.hexDigit?
  let low ← (← s.byte? (pos + 1)) |> Byte.hexDigit?
  return UInt8.ofNat (high * 16 + low)

/-- The colour whose six hexadecimal digits follow `pos`. -/
def colour? (s : Script) (pos : Nat) : Option TextPiece := do
  let red ← s.hexPair? (pos + 1)
  let green ← s.hexPair? (pos + 3)
  let blue ← s.hexPair? (pos + 5)
  return .colour red green blue

/-- The inline command after the exclamation mark at `pos`, and the address after it: a wait
that can be skipped, a delay that cannot, a speed, or the default speed. -/
def inlineCommand? (s : Script) (pos : Nat) : Option (TextPiece × Nat) := do
  let kind ← s.byte? (pos + 1)
  let start := pos + 2
  if kind == 0x73 && s.isAt start 0x64 then return (.speed none, start + 1)
  let after := s.advanceWhile Byte.isDigit start
  guard (start < after)
  let value := Decimal.byteValue (s.slice start after)
  if kind == 0x77 then return (.wait value true, after)
  else if kind == 0x64 then return (.wait value false, after)
  else if kind == 0x73 then return (.speed (some value), after)
  else none

end Script

namespace TextReader

/-- What text is read with. -/
structure Setup where
  /-- The script. -/
  script : Script
  /-- The named constants. -/
  aliases : Aliases
  /-- How text is cut and numbers are shown. -/
  style : TextStyle

/-- How far reading a run has come. -/
structure Progress where
  /-- The next byte to read. -/
  pos : Nat
  /-- Whether narrow mode is on. -/
  narrow : Bool
  /-- The variables. -/
  store : Store
  /-- The pieces so far. -/
  pieces : List TextPiece := []
  /-- Whether the next character is no click marker. -/
  unmarked : Bool := false
  /-- Whether a button is open. -/
  buttonOpen : Bool := false
  /-- Warnings so far. -/
  warnings : List Warning := []

/-- A reader of text. -/
abbrev Reader := Action Progress

/-- Adds a piece. -/
def push (piece : TextPiece) : Reader Unit :=
  modify fun p => { p with pieces := p.pieces ++ [piece] }

/-- Adds characters. -/
def pushChars (bytes : Bytes) : Reader Unit :=
  modify fun p => { p with pieces := TextPiece.pushChars p.pieces bytes }

/-- Adds a warning. -/
def warn (warning : Warning) : Reader Unit :=
  modify fun p => { p with warnings := p.warnings ++ [warning] }

/-- Goes on at another position. -/
def moveTo (pos : Nat) : Reader Unit :=
  modify fun p => { p with pos }

namespace Setup

variable (setup : Setup)

/-- Reads an operand inside the text. -/
def operand {α : Type} (read : Operand.Scope → Operand.Reader α) : Reader α := do
  let p ← get
  let scope : Operand.Scope :=
    { script := setup.script, narrow := p.narrow, store := p.store, aliases := setup.aliases }
  match (read scope).run { pos := p.pos } with
  | .ok value cursor =>
    set { p with pos := cursor.pos, warnings := p.warnings ++ cursor.warnings }
    return value
  | .error fault _ => throw fault

/-- Interpolates an integer variable or an array element. -/
def interpolateInt : Reader Unit := do
  let target ← setup.operand Operand.Scope.intRef
  let p ← get
  let value ← Action.ofExcept (p.store.readInt target)
  pushChars <| setup.script.encoding.formatNumber value
    (setup.style.wideDigits && !p.narrow) setup.style.numberPad

/-- Interpolates a string variable. -/
def interpolateStr : Reader Unit := do
  let n ← setup.operand Operand.Scope.strIndex
  pushChars ((← get).store.str n)

/-- The assignments of a block, each of which sees the ones before it. Every assignment takes at
least one byte, which bounds their number (`block_eq_of_size_lt`). -/
def block : (assignments : Nat) → Reader Unit
  | 0 => return ()
  | assignments + 1 => do
    let script := setup.script
    let pos := script.skipBlanks (← get).pos
    moveTo pos
    match script.byte? pos with
    | none => warn .openBlock
    | some b =>
      if b == Byte.rightBrace then moveTo (pos + 1)
      else if b == Byte.newline then warn .openBlock
      else
        let (target, value) ← setup.operand Operand.Scope.assignment
        let store ← Action.ofExcept ((← get).store.write target value)
        modify fun p =>
          { p with store, pos := script.eat Byte.comma (script.skipBlanks p.pos) }
        block assignments

/-- Whether a pause follows at `pos` anyway, so that a click marker in front of it needs none. -/
def pauseFollows (narrow : Bool) (pos : Nat) : Bool :=
  match setup.script.byte? pos with
  | none => false
  | some b =>
    b == Byte.atSign || b == Byte.backslash ||
      setup.style.isClickMarker
        (setup.script.slice pos (pos + setup.script.charWidth narrow pos))

/-- Reads one character, and ends the run if it is a click marker. -/
def character : Reader (Option Pause) := do
  let p ← get
  let after := p.pos + setup.script.charWidth p.narrow p.pos
  let char := setup.script.slice p.pos after
  set { p with pos := after, unmarked := false }
  pushChars char
  if !p.unmarked && setup.style.isClickMarker char && !setup.pauseFollows p.narrow after then
    return some .clickWaitOrNewPage
  else return none

/-- Reads a button mark with its number. -/
def button : Reader Unit := do
  let p ← get
  let after := setup.script.advanceWhile Byte.isDigit (p.pos + 1)
  set { p with pos := after, buttonOpen := true }
  push (.buttonStart (Decimal.byteValue (setup.script.slice (p.pos + 1) after)))

/-- Reads one element of the text; the run ends if it is a pause. -/
def element : Reader (Option Pause) := do
  let p ← get
  let script := setup.script
  match script.byte? p.pos with
  | none => return some .endOfLine
  | some b =>
    if b == Byte.newline then return some .endOfLine
    else if b == Byte.atSign then
      moveTo (p.pos + 1)
      return some .clickWait
    else if b == Byte.backslash then
      moveTo (p.pos + 1)
      return some .newPage
    else if b == Byte.underscore then
      set { p with pos := p.pos + 1, unmarked := true }
      return none
    else if b == Byte.backquote then
      set { p with pos := p.pos + 1, narrow := !p.narrow }
      push (.narrowMode !p.narrow)
      return none
    else if (b == Byte.percent || b == Byte.question) && script.startsVariable p.pos then
      setup.interpolateInt
      return none
    else if b == Byte.dollar && script.startsVariable p.pos then
      setup.interpolateStr
      return none
    else if b == Byte.leftBrace && script.startsBlock p.pos then
      moveTo (p.pos + 1)
      setup.block (script.size - p.pos + 1)
      return none
    else if b == Byte.less && script.holdsAt (p.pos + 1) Byte.isDigit then
      setup.button
      return none
    else if b == Byte.greater && p.buttonOpen then
      set { p with pos := p.pos + 1, buttonOpen := false }
      push .buttonEnd
      return none
    else if b == Byte.hash then
      match script.colour? p.pos with
      | some colour =>
        moveTo (p.pos + 7)
        push colour
        return none
      | none => setup.character
    else if b == Byte.exclamation then
      match script.inlineCommand? p.pos with
      | some (piece, after) =>
        moveTo after
        push piece
        return none
      | none => setup.character
    else setup.character

/-- Reads elements up to a pause. Every element takes at least one byte, which bounds their
number. -/
def elements : (count : Nat) → Reader Pause
  | 0 => return .endOfLine
  | count + 1 => do
    match ← setup.element with
    | some pause => return pause
    | none => elements count

/-- Reads a run up to its pause. -/
def run : Reader Pause := do
  let stop ← setup.elements (setup.script.size - (← get).pos + 1)
  if (← get).buttonOpen then warn .openButton
  return stop

end Setup

/-- A run of text and where reading goes on after it. -/
structure Delivery where
  /-- The run. -/
  run : TextRun
  /-- The next byte to read. -/
  next : Nat
  /-- Whether narrow mode is on there. -/
  narrow : Bool
  /-- Warnings found while reading. -/
  warnings : List Warning
  deriving DecidableEq, Repr

/-- Reads the run of text at an address. The variables come back changed by the blocks in the
text, also if reading fails. -/
def read (setup : Setup) (store : Store) (addr : Nat) (narrow : Bool) :
    Except Fault Delivery × Store :=
  match setup.run.run { pos := min addr setup.script.size, narrow, store } with
  | .ok stop p =>
    (.ok { run := { pieces := p.pieces, stop, start := addr }, next := p.pos,
           narrow := p.narrow, warnings := p.warnings }, p.store)
  | .error fault p => (.error fault, p.store)

end TextReader

end NovelScript
