import NovelScript.Machine.Flow
import NovelScript.Machine.Narration
import NovelScript.Machine.Snapshot
import NovelScript.Script.Source

/-!
# Stepping

The host drives the machine step by step. A step executes one statement or reads one run of text,
and says what happened; nothing ever waits. A command of the host is handed over to it, and is
finished by the host or by the next step.
-/

namespace NovelScript.Machine

/-- Number of global slots where neither the settings nor the script say otherwise. -/
def defaultBorder : Nat := 200

/-- What a machine takes from libraries. -/
structure Library where
  /-- The generator of random numbers for a seed. -/
  generator : Nat → RandomSource
  /-- The double-byte characters. -/
  table : Text.ShiftJis.Table

/-- A library that has frequent characters only. -/
def Library.standard : Library :=
  { generator := .splitMix, table := .common }

/-- A machine at the start of a script, before the persistent files are loaded. Without a seed its
random numbers come from `entropy`. -/
def fresh (script : Script) (settings : Settings) (saves : SaveArea)
    (entropy : RandomSource := .splitMix 0) (library : Library := .standard) : Machine :=
  let header := Header.ofBytes script.bytes.toList
  let border := (settings.globalBorder <|> header.globalBorder).getD defaultBorder
  let (labels, notices) := LabelTable.build script
  { settings, script, header, labels
    store := .blank settings.variableSlots border
    aliases := {}
    nesting := { cap := settings.maxNesting }
    marks := .none script.size
    labelLog := {}
    fileLog := {}
    commands := {}
    chance := { source := (settings.randomSeed.map library.generator).getD entropy }
    table := library.table
    style :=
      { clickMarkers :=
          script.encoding.chars (script.encoding.encode settings.clickMarkers library.table)
        wideDigits := settings.wideDigits
        numberPad := settings.numberPad }
    saves
    journal := notices }

/-- A machine at the start of a script. -/
def load (script : Script) (settings : Settings) (saves : SaveArea)
    (entropy : RandomSource := .splitMix 0) (library : Library := .standard) :
    Except Fault Machine :=
  (fresh script settings saves entropy library).loadPersistent

/-- Registers a command of the host. -/
def registerHost (m : Machine) (name : String) : Machine :=
  { m with commands := m.commands.register name }

/-- Notes that the host has used a file. -/
def recordFile (m : Machine) (name : String) : Machine :=
  { m with fileLog := m.fileLog.record name }

/-- Carries out a built-in command. -/
def execute : Command → Run Outcome
  | .mov => assign
  | .add => arithmetic .add
  | .sub => arithmetic .sub
  | .mul => arithmetic .mul
  | .div => arithmetic .div
  | .mod => arithmetic .mod
  | .inc => increase 1
  | .dec => increase (-1)
  | .cmp => compareStrings
  | .itoa => integerToString
  | .atoi => stringToInteger
  | .len => stringLength
  | .mid => substring
  | .rnd => randomBelow
  | .rnd2 => randomBetween
  | .intlimit => limitVariable
  | .dim => declareArray
  | .numalias => nameNumber
  | .stralias => nameString
  | .goto => gotoLabel
  | .gosub => gosub
  | .returnCall => returnFromCall
  | .rgosub => handlerGosub
  | .forLoop => openLoop
  | .next => loopAgain
  | .breakLoop => breakLoop
  | .ifHolds => conditional true
  | .notIf => conditional false
  | .jumpf => jumpForward
  | .jumpb => jumpBackward
  | .skip => skipLines
  | .endScript => return .stop
  | .game => startGame
  | .reset => return .restart
  | .defsub => defineSubroutine
  | .getparam => getParams
  | .textgosub => setTextHook
  | .pretextgosub => setPretextHook
  | .gettag => getTag
  | .clickstr => chooseClickMarkers
  | .labellog => enableLabelLog
  | .filelog => enableFileLog
  | .globalon => enableGlobals
  | .kidokuskip => enableSkipRead
  | .savegame => saveGame
  | .loadgame => loadGame
  | .savefileexist => testSlot

/-- Moves to the end of the current statement. Operands that are left are passed over with a
warning. -/
def endStatement : Run Unit := do
  let m ← get
  let pos := m.script.skipBlanks m.cursor
  let leftover := !m.script.atStatementEnd pos
  if leftover || m.script.isAt pos Byte.colon then moveTo (m.script.skipStatement false pos)
  else moveTo pos
  if leftover then warn .extraOperands

/-- Forgets the game that was played and starts anew. Aliases and subroutine commands stay. -/
def restart : Run Unit := do
  modify fun m =>
    { m with store := m.store.reset, nesting := m.nesting.clear, narrow := false, pretextTag := [] }
  jumpTo "start"

/-- Ends the script and writes the persistent files, once. -/
def finishProgram : Run Unit := do
  unless (← get).ended do
    modify fun m => { m with ended := true }
    savePersistent

/-- Does what a command asks for once its operands are read. -/
def complete : Outcome → Run Event
  | .advance => do
    endStatement
    return .continued
  | .skipLine => do
    modify fun m => { m with pc := m.script.lineEnd m.pc }
    return .continued
  | .stay => return .continued
  | .restart => do
    restart
    return .restarted
  | .stop => do
    finishProgram
    return .ended

/-- Executes the command of a statement that starts at `start` with operands at `operands`. A word
that is no command makes the line text. -/
def runCommand (start operands : Nat) (word : CommandWord) : Run Event := do
  modify fun m => { m with statementName := some word.name }
  match (← get).commands.resolve word with
  | .builtin command =>
    discard <| markRead start
    moveTo operands
    let outcome ← execute command
    complete outcome
  | .subroutine label =>
    discard <| markRead start
    let returnTo := (← get).statementEnd operands
    pushFrame (.call { kind := .subroutine, returnTo, params := some operands })
    jumpTo label
    return .continued
  | .host name =>
    discard <| markRead start
    modify fun m => { m with pc := operands, pendingHost := some name }
    return .hostCommand name
  | .unknown =>
    if word.forced then throw (.notBuiltin word.name)
    else
      modify fun m => { m with statementName := none, pc := start, inText := true }
      readText

/-- Keeps a tag and calls its handler, if there is one. -/
def runTag (start next : Nat) (tag : Bytes) : Run Event := do
  discard <| markRead start
  modify fun m => { m with pretextTag := tag, pc := next }
  let m ← get
  match m.pretextHook with
  | some label =>
    pushFrame (.call (.ofBookmark .pretext { addr := next, narrow := m.narrow, stop := .endOfLine }))
    jumpTo label
  | none => modify fun m => { m with inText := true }
  return .continued

/-- Executes the statement at the current address. -/
def runStatement : Run Event := do
  let m ← get
  let statement := m.script.statementAt m.pc m.pretextHook.isSome
  set { m with statementStart := statement.start, statementName := none }
  warnAll statement.warnings
  match statement.kind with
  | .endOfScript =>
    finishProgram
    return .ended
  | .comment | .endOfLine =>
    moveTo statement.next
    return .continued
  | .sectionMarker =>
    modify fun m => { m with lastSection := some statement.next, pc := statement.next }
    return .continued
  | .label name =>
    modify fun m => { m with labelLog := m.labelLog.record name, pc := statement.next }
    return .continued
  | .pretextTag tag => runTag statement.start statement.next tag
  | .command word => runCommand statement.start statement.next word
  | .text =>
    modify fun m => { m with pc := statement.start, inText := true }
    readText

/-- An action of the machine whose failures tell the place. -/
abbrev Located := EStateM Failure Machine

/-- Adds the place of the current statement to a fault. -/
def located {α : Type} (action : Run α) : Located α := fun m =>
  match action m with
  | .ok a after => .ok a after
  | .error fault after => .error { fault, location := some after.location } after

/-- Finishes the command of the host that is pending. -/
def finishCommand (outcome : Outcome) : Located Event := do
  if (← get).pendingHost.isSome then
    modify fun m => { m with pendingHost := none }
    located (complete outcome)
  else throw (.ofFault .noPendingCommand)

/-- One step: executes a statement or reads a run of text. A pending command of the host is
finished first. -/
def step : Located Event := do
  if (← get).pendingHost.isSome then discard <| finishCommand .advance
  let m ← get
  if m.ended then return .ended
  else if m.inText then located readText
  else located runStatement

/-- Goes on at a label. -/
def startAt (name : String) : Run Unit :=
  jumpTo name

end NovelScript.Machine
