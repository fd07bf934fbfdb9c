import NovelScript.Chance
import NovelScript.Command
import NovelScript.NameLog
import NovelScript.Nesting
import NovelScript.ReadMarks
import NovelScript.SaveArea
import NovelScript.Script.Header
import NovelScript.Settings

/-!
# The machine

The whole state of a running script, and the small actions that everything else is made of:
warnings, jumps, marks on what was read, and the place of the current statement.
-/

namespace NovelScript

/-- What a command says once its operands are read. -/
inductive Outcome where
  /-- Go on after the statement. -/
  | advance
  /-- Pass over the rest of the line. -/
  | skipLine
  /-- Start the game anew. -/
  | restart
  /-- Go on at the address that the command has set. -/
  | stay
  /-- Stop. -/
  | stop
  deriving DecidableEq, Repr

/-- What one step of the machine did. -/
inductive Event where
  /-- A statement was executed. -/
  | continued
  /-- A run of text is to be shown. -/
  | text (run : TextRun)
  /-- A command of the host waits for its operands to be read. -/
  | hostCommand (name : String)
  /-- The game starts anew. -/
  | restarted
  /-- The script has ended. -/
  | ended
  deriving DecidableEq, Repr

/-- A running script. -/
structure Machine where
  /-- How the engine is set up. -/
  settings : Settings
  /-- The script. -/
  script : Script
  /-- What the top of the script declares. -/
  header : Header
  /-- The labels of the script. -/
  labels : LabelTable
  /-- The variables. -/
  store : Store
  /-- The named constants. -/
  aliases : Aliases
  /-- Open calls and loops. -/
  nesting : Nesting
  /-- Which addresses were reached. -/
  marks : ReadMarks
  /-- The labels passed. -/
  labelLog : NameLog
  /-- The files used. -/
  fileLog : NameLog
  /-- Commands of the script and of the host. -/
  commands : CommandTable
  /-- The source of random numbers. -/
  chance : Chance
  /-- The double-byte characters. -/
  table : Text.ShiftJis.Table
  /-- How text is cut and numbers are shown. -/
  style : TextStyle
  /-- Where saves go. -/
  saves : SaveArea
  /-- The next byte to execute or to read as an operand. -/
  pc : Nat := 0
  /-- Whether `pc` is in the middle of text. -/
  inText : Bool := false
  /-- Whether narrow mode is on. -/
  narrow : Bool := false
  /-- Handler of pauses in text. -/
  textHook : Option String := none
  /-- Handler of tags in front of text. -/
  pretextHook : Option String := none
  /-- The last tag in front of text. -/
  pretextTag : Bytes := []
  /-- Whether the global variables are kept between sessions. -/
  keepGlobals : Bool := false
  /-- Whether the host may pass quickly over text that was read before. -/
  skipRead : Bool := false
  /-- The address after the last section marker that was passed. -/
  lastSection : Option Nat := none
  /-- Start of the current statement. -/
  statementStart : Nat := 0
  /-- Name of the current command. -/
  statementName : Option String := none
  /-- Command of the host that waits to be finished. -/
  pendingHost : Option String := none
  /-- Whether the script has ended. -/
  ended : Bool := false
  /-- Number of warnings so far. -/
  warningCount : Nat := 0
  /-- The log so far. -/
  journal : List Notice := []

namespace Machine

/-- An action of the machine. -/
abbrev Run := Action Machine

/-- The place of the current statement: its label, its line, and the command that it is or the
beginning of its text. -/
def location (m : Machine) : Location :=
  let start := m.statementStart
  let statement := match m.statementName with
    | some name => some name
    | none =>
      let bytes := m.script.slice start (min (m.script.lineEnd start) (start + 40))
      if bytes.isEmpty then none else some (m.script.encoding.display bytes m.table)
  { label := ((m.labels.enclosing? start).map Label.name).getD ""
    line := m.labels.lineInLabel m.script start
    statement }

/-- Reports a warning. In strict mode it is a fault. -/
def warn (warning : Warning) : Run Unit := do
  let m ← get
  if m.settings.strict then throw (.warning warning)
  else
    let place := m.location
    set { m with
      warningCount := m.warningCount + 1
      journal := m.journal ++ [Notice.warning warning place.label place.line] }

/-- Reports warnings in order. -/
def warnAll : List Warning → Run Unit
  | [] => return ()
  | warning :: warnings => do
    warn warning
    warnAll warnings

/-- Adds notices to the log. -/
def note (notices : List Notice) : Run Unit :=
  modify fun m => { m with journal := m.journal ++ notices }

/-- Goes on at another address. -/
def moveTo (addr : Nat) : Run Unit :=
  modify fun m => { m with pc := addr }

/-- Goes on at a label. -/
def jumpTo (name : String) : Run Unit := do
  let label ← Action.ofExcept ((← get).labels.byName name)
  modify fun m => { m with pc := label.start, inText := false }

/-- Goes on in interrupted text. -/
def resumeText (bookmark : Bookmark) : Run Unit :=
  modify fun m => { m with pc := bookmark.addr, narrow := bookmark.narrow, inText := true }

/-- Marks an address as reached, and says whether it was reached before. Without read-tracking
nothing is marked. -/
def markRead (addr : Nat) : Run Bool := do
  let m ← get
  if m.settings.trackRead then
    set { m with marks := m.marks.mark addr }
    return m.marks.isMarked addr
  else return false

/-- Opens a call or a loop. -/
def pushFrame (frame : Frame) : Run Unit := do
  let nesting ← Action.ofExcept ((← get).nesting.push frame)
  modify fun m => { m with nesting }

/-- Changes the variables by an operation that may fail. -/
def updateStore (f : Store → Except Fault Store) : Run Unit := do
  let store ← Action.ofExcept (f (← get).store)
  modify fun m => { m with store }

/-- The address after the statement whose operands start at `addr`. -/
def statementEnd (m : Machine) (addr : Nat) : Nat :=
  m.script.skipStatement false (min addr m.script.size)

end Machine

end NovelScript
