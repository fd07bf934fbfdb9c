import NovelScript.Save

/-!
# The save file format

A save file starts with a mark and a version. Integers are 32-bit little-endian, strings end with
a zero byte, and an empty string stands for none. The description at the end is in double quotes.

Writers are functions to byte strings; a reader consumes the front of a byte string and knows how
many bytes came before, for its messages.
-/

namespace NovelScript

namespace Pause

/-- The number of a pause in save files. -/
def code : Pause → UInt8
  | clickWait => 0
  | newPage => 1
  | clickWaitOrNewPage => 2
  | endOfLine => 3

/-- The pause with a number. -/
def ofCode? (code : UInt8) : Option Pause :=
  match code.toNat with
  | 0 => some clickWait
  | 1 => some newPage
  | 2 => some clickWaitOrNewPage
  | 3 => some endOfLine
  | _ => none

/-- The pause of a code is the one that the code was given for. -/
theorem ofCode?_code (stop : Pause) : ofCode? stop.code = some stop := by
  cases stop <;> rfl

end Pause

namespace Save

/-- The first bytes of a save file. -/
def fileMark : Bytes := [0x4e, 0x53, 0x41, 0x56]

/-- The version of the format. -/
def fileVersion : UInt8 := 2

/-- The file of a save slot. -/
def fileName (slot : Int32) : String :=
  s!"save{slot}.dat"

/-! ## Writing -/

/-- A 32-bit integer, least significant byte first. -/
def int32Bytes (value : Int32) : Bytes :=
  let n := value.toUInt32.toNat
  [UInt8.ofNat n, UInt8.ofNat (n / 256), UInt8.ofNat (n / 65536), UInt8.ofNat (n / 16777216)]

/-- A count as a 32-bit integer. -/
def countBytes (n : Nat) : Bytes :=
  int32Bytes (Int32.ofNat n)

/-- A truth value as a byte. -/
def boolByte (b : Bool) : UInt8 :=
  if b then 1 else 0

/-- A string with the zero byte at its end. -/
def stringBytes (bytes : Bytes) : Bytes :=
  bytes ++ [0]

/-- Integer and string of a slot. -/
def slotBytes (slot : SavedSlot) : Bytes :=
  int32Bytes slot.num ++ stringBytes (slot.str.getD [])

/-- A position. -/
def positionBytes (position : SavedPosition) : Bytes :=
  stringBytes (Bytes.ofText position.label) ++ int32Bytes position.line ++
    int32Bytes position.offset

/-- Something that may be absent: a zero byte, or a one and the thing itself. -/
def optionBytes {α : Type} (write : α → Bytes) : Option α → Bytes
  | none => [0]
  | some a => 1 :: write a

/-- A bookmark. -/
def bookmarkBytes (bookmark : SavedBookmark) : Bytes :=
  positionBytes bookmark.position ++ [boolByte bookmark.narrow, bookmark.stop.code]

/-- A variable reference. -/
def refBytes : VariableRef → Bytes
  | .int n => 0 :: countBytes n
  | .str n => 1 :: countBytes n
  | .array no indices =>
    2 :: int32Bytes no ++ countBytes indices.length ++ indices.flatMap int32Bytes

/-- An open call or loop. -/
def frameBytes : SavedFrame → Bytes
  | .call kind returnTo params bookmark =>
    0x43 :: kind :: positionBytes returnTo ++ optionBytes positionBytes params ++
      optionBytes bookmarkBytes bookmark
  | .loop counter bound step body finished =>
    0x4c :: refBytes counter ++ int32Bytes bound ++ int32Bytes step ++ positionBytes body ++
      [boolByte finished]

/-- An array with its number. -/
def gridBytes : Int32 × Grid → Bytes
  | (no, grid) =>
    int32Bytes no ++ countBytes grid.dims.length ++ grid.dims.flatMap int32Bytes ++
      grid.cells.toList.flatMap int32Bytes

/-- A slot with its number. -/
def numberedSlotBytes : Nat × SavedSlot → Bytes
  | (n, slot) => countBytes n ++ slotBytes slot

/-- A count and the things counted. -/
def listBytes {α : Type} (write : α → Bytes) (items : List α) : Bytes :=
  countBytes items.length ++ items.flatMap write

/-- The description. -/
def descriptionBytes : Option Bytes → Bytes
  | none => []
  | some text => Byte.quote :: text ++ [Byte.quote]

/-- A save file. -/
def toBytes (save : Save) : Bytes :=
  fileMark ++ fileVersion :: positionBytes save.position ++
    [boolByte save.inText, boolByte save.narrow] ++ listBytes frameBytes save.frames ++
    countBytes save.vars.firstLocal ++ listBytes slotBytes save.vars.locals ++
    listBytes numberedSlotBytes save.vars.overflow ++
    listBytes gridBytes save.vars.grids ++ descriptionBytes save.description

end Save

/-! ## Reading -/

/-- Bytes that are still to be read. -/
structure Feed where
  /-- The bytes. -/
  rest : Bytes
  /-- Number of bytes before them. -/
  offset : Nat
  deriving DecidableEq, Repr

/-- A reader of stored data. -/
abbrev Decoder := StateT Feed (Except Fault)

namespace Decoder

/-- One byte. -/
def byte : Decoder UInt8 := fun feed =>
  match feed.rest with
  | b :: rest => .ok (b, { rest, offset := feed.offset + 1 })
  | [] => .error (.truncated feed.offset 1)

/-- Four bytes. -/
def fourBytes : Decoder (UInt8 × UInt8 × UInt8 × UInt8) := fun feed =>
  match feed.rest with
  | a :: b :: c :: d :: rest => .ok ((a, b, c, d), { rest, offset := feed.offset + 4 })
  | _ => .error (.truncated feed.offset 4)

/-- A 32-bit integer, least significant byte first. -/
def int32 : Decoder Int32 := do
  let (a, b, c, d) ← fourBytes
  return (UInt32.ofNat
    (a.toNat + 256 * b.toNat + 65536 * c.toNat + 16777216 * d.toNat)).toInt32

/-- A count; `what` names what is counted. -/
def count (what : String) : Decoder Nat := do
  let n ← int32
  if n < 0 then throw (.negativeCount what n)
  return n.toInt.toNat

/-- A truth value; every byte but zero is true. -/
def bool : Decoder Bool := do
  return (← byte) != 0

/-- A string up to its zero byte; an empty one is none. -/
def string? : Decoder (Option Bytes) := fun feed =>
  let text := feed.rest.takeWhile (· != 0)
  match feed.rest.dropWhile (· != 0) with
  | [] => .error .openSavedString
  | _ :: rest =>
    .ok (if text.isEmpty then none else some text,
      { rest, offset := feed.offset + text.length + 1 })

/-- Reads `n` things and puts them after those in `found`, which are in reverse order. -/
def manyAfter {α : Type} (item : Decoder α) : (n : Nat) → (found : List α) → Decoder (List α)
  | 0, found => return found.reverse
  | n + 1, found => fun feed =>
    match item feed with
    | .error fault => .error fault
    | .ok (a, feed) => manyAfter item n (a :: found) feed

/-- Reads `n` things. -/
def many {α : Type} (item : Decoder α) (n : Nat) : Decoder (List α) :=
  manyAfter item n []

/-- Something that may be absent. -/
def option {α : Type} (item : Decoder α) : Decoder (Option α) := do
  if (← byte) = 0 then return none
  else return some (← item)

end Decoder

namespace Decoder

/-- Reads a slot. -/
def savedSlot : Decoder SavedSlot := do
  let num ← int32
  let str ← string?
  return { num, str }

/-- Reads a position. -/
def savedPosition : Decoder SavedPosition := do
  let label ← string?
  let line ← int32
  let offset ← int32
  return { label := String.ofList (Text.Utf8.decode (label.getD [])), line, offset }

/-- Reads a pause. -/
def pause : Decoder Pause := do
  let code ← byte
  match Pause.ofCode? code with
  | some stop => return stop
  | none => throw (.badStopCode code)

/-- Reads a bookmark. -/
def savedBookmark : Decoder SavedBookmark := do
  let position ← savedPosition
  let narrow ← bool
  let stop ← pause
  return { position, narrow, stop }

/-- Reads the number of a variable. -/
def variableIndex : Decoder Nat := do
  let n ← int32
  if n < 0 then throw .negativeSavedIndex
  return n.toInt.toNat

/-- Reads a variable reference. -/
def variableRef : Decoder VariableRef := do
  let tag ← byte
  if tag = 0 then return .int (← variableIndex)
  else if tag = 1 then return .str (← variableIndex)
  else if tag = 2 then
    let no ← int32
    let n ← count "index"
    return .array no (← many int32 n)
  else throw (.badVariableTag tag)

/-- Reads an open call or loop. -/
def savedFrame : Decoder SavedFrame := do
  let tag ← byte
  if tag = 0x43 then
    let kind ← byte
    let returnTo ← savedPosition
    let params ← option savedPosition
    let mark ← option savedBookmark
    return .call kind returnTo params mark
  else if tag = 0x4c then
    let counter ← variableRef
    let bound ← int32
    let step ← int32
    let body ← savedPosition
    let finished ← bool
    return .loop counter bound step body finished
  else throw (.badFrameTag tag)

/-- Reads a slot with its number. -/
def numberedSlot : Decoder (Nat × SavedSlot) := do
  let n ← count "slot index"
  return (n, ← savedSlot)

/-- Reads an array with its number, from a file of `fileSize` bytes. -/
def numberedGrid (fileSize : Nat) : Decoder (Int32 × Grid) := do
  let no ← int32
  let axes ← count "dimension"
  let dims ← many int32 axes
  if dims.any (· < 0) then throw (.negativeSavedAxis no)
  match (Grid.cellCount? dims).filter fun n => n ≤ Grid.maxCells && n * 4 ≤ fileSize with
  | none => throw (.savedGridTooLarge no)
  | some n =>
    let cells ← many int32 n
    return (no, { dims, cells := cells.toArray })

/-- Reads everything in front of the description of a file of `fileSize` bytes. -/
def save (fileSize : Nat) : Decoder Save := do
  let (a, b, c, d) ← fourBytes
  if [a, b, c, d] ≠ Save.fileMark then throw .notASave
  let version ← byte
  if version ≠ Save.fileVersion then throw (.unsupportedVersion version)
  let position ← savedPosition
  let inText ← bool
  let narrow ← bool
  let frames ← many savedFrame (← count "frame")
  let firstLocal ← count "slot"
  let locals ← many savedSlot (← count "slot")
  let overflow ← many numberedSlot (← count "slot")
  let grids ← many (numberedGrid fileSize) (← count "array")
  return { position, inText, narrow, frames,
           vars := { firstLocal, locals, overflow, grids }, description := none }

end Decoder

namespace Save

/-- The description that makes up the rest of a file. -/
def descriptionOf (rest : Bytes) : Except Fault (Option Bytes) :=
  match rest with
  | [] => .ok none
  | first :: inner =>
    match inner.getLast? with
    | some last =>
      if first = Byte.quote ∧ last = Byte.quote then .ok (some inner.dropLast)
      else .error .trailingBytes
    | none => .error .trailingBytes

/-- Reads a save file. -/
def ofBytes (bytes : Bytes) : Except Fault Save := do
  let (save, feed) ← Decoder.save bytes.length { rest := bytes, offset := 0 }
  let description ← descriptionOf feed.rest
  return { save with description }

end Save

/-! ## Global variables -/

namespace Store

/-- The file of the global variables. -/
def globalsFile : String := "gloval.sav"

/-- The global slots, in order. -/
def globalsBytes (store : Store) : Bytes :=
  (store.slotsBetween 0 store.border).flatMap fun slot => Save.slotBytes slot.toSaved

/-- Puts stored slots back, from number `n` on and for at most `count` slots. Slots before a
malformed one are kept. -/
def restoreGlobalsFrom : (count n : Nat) → Feed → Store → Except Fault Unit × Store
  | 0, _, _, store => (.ok (), store)
  | count + 1, n, feed, store =>
    if feed.rest.isEmpty then (.ok (), store)
    else match Decoder.savedSlot feed with
      | .error fault => (.error fault, store)
      | .ok (slot, feed) =>
        restoreGlobalsFrom count (n + 1) feed (store.restoreSlot n slot.num slot.str)

/-- Puts stored global slots back, as many as the file holds. -/
def restoreGlobals (store : Store) (bytes : Bytes) : Except Fault Unit × Store :=
  restoreGlobalsFrom store.border 0 { rest := bytes, offset := 0 } store

end Store

end NovelScript
