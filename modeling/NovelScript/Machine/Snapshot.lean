import NovelScript.Machine.Variables
import NovelScript.Save.Codec

/-!
# Snapshots and persistent files

A snapshot is everything that a save slot holds. Restoring one changes nothing unless all of its
positions can be found in the script. Marks on read text, logs and global variables are kept in
files of their own, between sessions.
-/

namespace NovelScript.Machine

/-! ## Positions -/

/-- An address, relative to its label. -/
def positionOf (m : Machine) (addr : Nat) : SavedPosition :=
  let label := m.labels.enclosing? addr
  let base := (label.map Label.start).getD 0
  let lineStart := m.script.lineStart addr
  { label := (label.map Label.name).getD ""
    line := Int32.ofNat (m.script.newlinesBetween base lineStart)
    offset := Int32.ofNat (addr - lineStart) }

/-- Where the lines of a position are counted from. -/
def baseOf (m : Machine) (position : SavedPosition) : Except Fault Nat :=
  if position.label.isEmpty then .ok 0
  else do
    let label ← m.labels.byName position.label
    return label.start

/-- The address of a position. The line must be long enough for the offset. -/
def addressOf (m : Machine) (position : SavedPosition) : Except Fault Nat := do
  let base ← m.baseOf position
  let lineStart := m.script.linesDown position.line.toInt.toNat base
  if position.offset < 0 then .error (.negativeLineOffset position.offset)
  else
    let offset := position.offset.toInt.toNat
    if m.script.lineEnd lineStart - lineStart < offset then
      .error (.positionPastLine position.label position.line position.offset)
    else m.script.address (lineStart + offset)

/-! ## Snapshots -/

/-- A bookmark, relative to its label. -/
def savedBookmark (m : Machine) (bookmark : Bookmark) : SavedBookmark :=
  { position := m.positionOf bookmark.addr, narrow := bookmark.narrow, stop := bookmark.stop }

/-- A frame, relative to labels. -/
def savedFrame (m : Machine) : Frame → SavedFrame
  | .call frame =>
    .call frame.kind.code (m.positionOf frame.returnTo) (frame.params.map m.positionOf)
      (frame.bookmark.map m.savedBookmark)
  | .loop frame =>
    .loop frame.counter frame.bound frame.step (m.positionOf frame.body) frame.finished

/-- Everything that a save slot holds, for a game that goes on at `resume`. -/
def snapshot (m : Machine) (resume : Nat) (description : Option Bytes) : Save :=
  { position := m.positionOf resume
    inText := m.inText
    narrow := m.narrow
    frames := m.nesting.frames.reverse.map m.savedFrame
    vars := .ofStore m.store
    description }

/-- Applies a partial function to something that may be absent. -/
def ifPresent {α β : Type} (f : α → Except Fault β) : Option α → Except Fault (Option β)
  | none => .ok none
  | some a => do
    let b ← f a
    return some b

/-- Finds a saved bookmark in the script. -/
def bookmarkOf (m : Machine) (saved : SavedBookmark) : Except Fault Bookmark := do
  let addr ← m.addressOf saved.position
  return { addr, narrow := saved.narrow, stop := saved.stop }

/-- Finds the addresses of a saved frame in the script. -/
def frameOf (m : Machine) : SavedFrame → Except Fault Frame
  | .call code returnTo params bookmark =>
    match CallKind.ofCode? code with
    | none => .error (.badCallKind code)
    | some kind => do
      let bookmark ← ifPresent m.bookmarkOf bookmark
      let params ← ifPresent m.addressOf params
      let returnTo ← m.addressOf returnTo
      return .call { kind, returnTo, params, bookmark }
  | .loop counter bound step body finished => do
    let body ← m.addressOf body
    return .loop { counter, bound, step, body, finished }

/-- Finds the addresses of saved frames in the script, one after another. -/
def framesOf (m : Machine) : List SavedFrame → Except Fault (List Frame)
  | [] => .ok []
  | saved :: rest => do
    let frame ← m.frameOf saved
    let frames ← m.framesOf rest
    return frame :: frames

/-- Goes on with a saved game. A position that cannot be found is a fault. -/
def restore (m : Machine) (save : Save) : Except Fault Machine := do
  let frames ← m.framesOf save.frames
  let pc ← m.addressOf save.position
  return { m with
    store := save.vars.restore m.store
    nesting := { m.nesting with frames := frames.reverse }
    pc
    inText := save.inText
    narrow := save.narrow
    pendingHost := none
    ended := false }

/-! ## Files -/

/-- The file of the marks on read text. -/
def marksFile : String := "kidoku.dat"

/-- The file of the labels passed. -/
def labelLogFile : String := "NScrllog.dat"

/-- The file of the files used. -/
def fileLogFile : String := "NScrflog.dat"

/-- A file of the folder for saves, if there are both. -/
def readSaved? (m : Machine) (name : String) : Option Bytes :=
  m.saves.read? name

/-- Writes a file of the folder for saves, unless the system refuses it. Without a folder nothing is
to be written. -/
def writeSaved (name : String) (bytes : Bytes) : Run Unit := do
  let refusal := (← get).saves.refusals name 0
  modify fun m => { m with saves := m.saves.attempt name bytes }
  match refusal with
  | none => return ()
  | some failure => throw (.unwritten name failure)

/-- Requires that there is a folder for saves. -/
def requireSaves (m : Machine) : Except Fault Unit :=
  match m.saves with
  | .absent => .error .noSaveFolder
  | .missing | .folder _ => .ok ()

/-- Writes the persistent files: marks, logs, and the global variables if they are kept. -/
def savePersistent : Run Unit := do
  let m ← get
  if m.settings.trackRead then writeSaved marksFile m.marks.toBytes
  if m.labelLog.enabled then writeSaved labelLogFile m.labelLog.toBytes
  if m.fileLog.enabled then writeSaved fileLogFile m.fileLog.toBytes
  if m.keepGlobals then writeSaved Store.globalsFile m.store.globalsBytes

/-- Adds the names of a stored log, if there is one. -/
def loadLog (m : Machine) (name : String) (log : NameLog) : Except Fault NameLog :=
  match m.readSaved? name with
  | none => .ok log
  | some bytes =>
    match log.merge bytes with
    | (.ok (), merged) => .ok merged
    | (.error fault, _) => .error fault

/-- Puts the stored global variables back, if there are any. -/
def loadGlobals (m : Machine) : Except Fault Store :=
  match m.readSaved? Store.globalsFile with
  | none => .ok m.store
  | some bytes =>
    match m.store.restoreGlobals bytes with
    | (.ok (), store) => .ok store
    | (.error fault, _) => .error fault

/-- The marks on read text, as far as they were stored. -/
def loadMarks (m : Machine) : ReadMarks :=
  match m.readSaved? marksFile with
  | some bytes => if m.settings.trackRead then .ofBytes bytes m.script.size else m.marks
  | none => m.marks

/-- Loads the persistent files. -/
def loadPersistent (m : Machine) : Except Fault Machine := do
  let labelLog ← m.loadLog labelLogFile m.labelLog
  let fileLog ← m.loadLog fileLogFile m.fileLog
  let store ← m.loadGlobals
  return { m with marks := m.loadMarks, labelLog, fileLog, store }

/-- Writes a save slot, for a game that goes on at `resume`. -/
def saveSlot (slot : Int32) (resume : Nat) (description : Option Bytes) : Run Unit := do
  let m ← get
  Action.ofExcept m.requireSaves
  writeSaved (Save.fileName slot) (m.snapshot resume description).toBytes

/-- Whether a save slot was written. -/
def slotExists (m : Machine) (slot : Int32) : Bool :=
  (m.readSaved? (Save.fileName slot)).isSome

/-- Goes on with the game of a save slot, all or nothing. -/
def loadSlot (slot : Int32) : Run Unit := do
  let m ← get
  Action.ofExcept m.requireSaves
  match m.readSaved? (Save.fileName slot) with
  | none => throw (.fileUnavailable (Save.fileName slot))
  | some bytes =>
    let save ← Action.ofExcept (Save.ofBytes bytes)
    let restored ← Action.ofExcept (m.restore save)
    set restored

/-! ## Commands -/

/-- Switches the log of labels on. -/
def enableLabelLog : Run Outcome := do
  modify fun m => { m with labelLog := { m.labelLog with enabled := true } }
  return .advance

/-- Switches the log of files on. -/
def enableFileLog : Run Outcome := do
  modify fun m => { m with fileLog := { m.fileLog with enabled := true } }
  return .advance

/-- Keeps the global variables between sessions. -/
def enableGlobals : Run Outcome := do
  modify fun m => { m with keepGlobals := true }
  return .advance

/-- Allows the host to pass quickly over text that was read before. -/
def enableSkipRead : Run Outcome := do
  modify fun m => { m with skipRead := true }
  return .advance

/-- Writes a save slot, with a description if one is given; the game goes on after the
statement. -/
def saveGame : Run Outcome := do
  let slot ← readInt
  let description ← if (← get).hasMore then some <$> readStr else pure none
  let m ← get
  saveSlot slot (m.statementEnd m.pc) description
  savePersistent
  return .advance

/-- Loads a save slot; one that was never written is passed over with a warning. -/
def loadGame : Run Outcome := do
  let slot ← readInt
  let m ← get
  Action.ofExcept m.requireSaves
  if m.slotExists slot then
    loadSlot slot
    return .stay
  else
    warn (.missingSlot slot)
    return .advance

/-- Says whether a save slot was written. -/
def testSlot : Run Outcome := do
  let target ← readIntTarget
  let slot ← readInt
  let m ← get
  Action.ofExcept m.requireSaves
  writeInt target (if m.slotExists slot then 1 else 0)
  return .advance

end NovelScript.Machine
