import NovelScript.Machine.Variables

/-!
# Narration

Reading text while the script runs, and the commands that attach handlers to pauses and tags.
-/

namespace NovelScript.Machine

/-- Reads the next run of text. A handler of pauses, if there is one, is called at the pause. -/
def readText : Run Event := do
  let start := (← get).pc
  let seen ← markRead start
  let m ← get
  let setup : TextReader.Setup := { script := m.script, aliases := m.aliases, style := m.style }
  let (result, store) := TextReader.read setup m.store start m.narrow
  set { m with store }
  let delivery ← Action.ofExcept result
  warnAll delivery.warnings
  modify fun m => { m with pc := delivery.next, narrow := delivery.narrow }
  let run := { delivery.run with seen }
  if run.stop = .endOfLine then
    modify fun m => { m with inText := false }
    if run.pieces.isEmpty then return .continued
    else return .text run
  else
    match (← get).textHook with
    | none => return .text run
    | some label =>
      let bookmark : Bookmark :=
        { addr := delivery.next, narrow := delivery.narrow, stop := run.stop }
      pushFrame (.call (.ofBookmark .textGosub bookmark))
      jumpTo label
      return .text { run with handled := true }

/-- Reads a label that must exist. -/
def readHook : Run String := do
  let label ← readLabel
  discard <| Action.ofExcept ((← get).labels.byName label)
  return label

/-- Attaches a handler to the pauses of text. -/
def setTextHook : Run Outcome := do
  let label ← readHook
  modify fun m => { m with textHook := some label }
  return .advance

/-- Attaches a handler to the tags in front of text. -/
def setPretextHook : Run Outcome := do
  let label ← readHook
  modify fun m => { m with pretextHook := some label }
  return .advance

/-- The fields of a tag, between slashes. -/
def tagFields : Bytes → List Bytes
  | [] => [[]]
  | b :: rest =>
    if b = Byte.slash then [] :: tagFields rest
    else match tagFields rest with
      | [] => [[b]]
      | field :: fields => (b :: field) :: fields

/-- Copies the fields of a tag to the targets of the current statement, at most `targets` of them
(`copyFields_eq_of_size_lt`). Missing fields are empty. -/
def copyFields : (targets : Nat) → (fields : List Bytes) → Run Unit
  | 0, _ => return ()
  | targets + 1, fields => do
    if (← get).hasMore then
      let target ← readVarRef
      let field := fields.headD []
      if target.isStr then writeStr target field
      else writeInt target (Decimal.leadingInt field)
      copyFields targets fields.tail

/-- Copies the fields of the last tag to variables. -/
def getTag : Run Outcome := do
  let m ← get
  copyFields (m.script.size - m.cursor + 1) (tagFields m.pretextTag)
  return .advance

/-- Chooses the click markers. A number of lines may follow, which has no effect. -/
def chooseClickMarkers : Run Outcome := do
  let chars ← readStr
  if (← get).hasMore then discard readInt
  modify fun m => { m with style := m.style.setClickMarkers chars m.script.encoding }
  return .advance

end NovelScript.Machine
