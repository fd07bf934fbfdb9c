import NovelScript.Session

/-!
# The program

Reads the folder of a script, plays the script on the terminal, and writes the persistent files
back.
-/

namespace NovelScript.Program

/-- The files of a folder, if it exists. -/
def readFolder (path : String) : IO (Option Folder) := do
  let here ← IO.currentDir
  let place := here / path
  unless ← place.isDir do return none
  let mut files := []
  for entry in ← place.readDir do
    unless ← entry.path.isDir do
      let contents ← IO.FS.readBinFile entry.path
      files := (entry.fileName, contents.toList) :: files
  return some { files }

/-- The contents of a file, if it can be read. -/
def readFile (path : String) : IO (Option Bytes) := do
  try
    return some (← IO.FS.readBinFile path).toList
  catch _ => return none

/-- Writes the files that differ from those of an earlier state of the folder. -/
def writeChanges (path : String) (before after : Folder) : IO Unit := do
  for (name, bytes) in after.files do
    unless before.read? name = some bytes do
      IO.FS.writeBinFile s!"{path}/{name}" ⟨bytes.toArray⟩

/-- Writes the saves of a machine that differ from those written before. -/
def sync (path : String) (written : Folder) (machine : Machine) : IO Folder := do
  match machine.saves with
  | .folder files =>
    writeChanges path written files
    return files
  | .absent | .missing => return written

/-- Does on the terminal what a run of text asks for. -/
def perform (acts : List Console.Act) : IO Unit := do
  let out ← IO.getStdout
  for act in acts do
    match act with
    | .print text => out.putStr text
    | .wait ms =>
      out.flush
      IO.sleep (UInt32.ofNat ms)
    | .pause =>
      out.flush
      discard (← IO.getStdin).getLine
  out.flush

/-- Plays a script until it ends; gives the exit code. -/
partial def play (console : Console) (path : String) (written : Folder) (machine : Machine) :
    IO UInt32 := do
  match Session.turn console machine with
  | .going machine acts =>
    if acts.isEmpty then play console path written machine
    else
      let written ← sync path written machine
      perform acts
      play console path written machine
  | .ended machine =>
    discard <| sync path written machine
    return 0
  | .failed machine failure =>
    let (report, machine) := Session.failureReport machine failure
    (← IO.getStderr).putStr report
    discard <| sync path written machine
    return 1

/-- Whether a file is one of the persistent files. -/
def isPersistent (name : String) : Bool :=
  name == Machine.marksFile || name == Machine.labelLogFile || name == Machine.fileLogFile ||
    name == Store.globalsFile || name.startsWith "save"

/-- The persistent files of a folder. -/
def persistentFiles (folder : Folder) : Folder :=
  { files := folder.files.filter fun (name, _) => isPersistent name }

/-- Plays the script that the command line asks for. -/
def run (invocation : Session.Invocation) : IO UInt32 := do
  let errors ← IO.getStderr
  let fail (fault : Fault) : IO UInt32 := do
    errors.putStr s!"Error: {(Failure.ofFault fault).describe}\n"
    return 1
  match ← readFolder invocation.folder with
  | none =>
    errors.putStr (Session.folderReport invocation.folder)
    return 1
  | some folder =>
    let configFile ← match invocation.config with
      | some path => readFile path
      | none => pure none
    match Session.settings invocation folder configFile with
    | .error fault => fail fault
    | .ok settings =>
      let path := settings.saveFolder.getD invocation.folder
      let saves ← match ← readFolder path with
        | some files => pure (SaveArea.folder (persistentFiles files))
        | none => pure SaveArea.missing
      let seed ← IO.rand 0 0xffffffffffffffff
      match Session.start invocation settings folder saves (.splitMix seed) with
      | .error fault => fail fault
      | .ok machine =>
        let interactive := (← (← IO.getStdin).isTty) && (← (← IO.getStdout).isTty)
        let written := match saves with
          | .folder files => files
          | .absent | .missing => {}
        play { interactive, skipSeen := invocation.skipSeen } path written machine

end NovelScript.Program

/-- The command line. -/
def main (args : List String) : IO UInt32 := do
  match args with
  | [] =>
    IO.print NovelScript.Session.usage
    return 0
  | folder :: options =>
    match NovelScript.Session.readOptions { folder } options with
    | .error fault =>
      (← IO.getStderr).putStr (NovelScript.Session.usageReport fault)
      return 1
    | .ok invocation => NovelScript.Program.run invocation
