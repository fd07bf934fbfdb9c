import NovelScript.Console
import NovelScript.Machine.Step
import NovelScript.Text.Printable

/-!
# Sessions on a terminal

The command line: its options, the messages for wrong use, and how a script is played from its
folder until it ends or fails.
-/

namespace NovelScript.Session

/-- The name of the program. -/
def program : String := "nscript"

/-- How to use the program. -/
def usage : String :=
  s!"{program} - script engine for NScripter-style visual novels\n\n" ++
  s!"Usage: {program} <script_dir> [--config file.toml] [--strict] [--label name] [--skip]\n" ++
  "Examples:\n" ++
  s!"  {program} game/\n" ++
  s!"  {program} game/ --label chapter2 --strict\n\n" ++
  "--strict turns warnings into fatal errors\n" ++
  "--skip does not pause on text already read (needs kidokuskip)\n"

/-- What the command line asks for. -/
structure Invocation where
  /-- The folder of the script. -/
  folder : String
  /-- A settings file. -/
  config : Option String := none
  /-- Whether warnings are faults. -/
  strict : Bool := false
  /-- The label to start at. -/
  label : Option String := none
  /-- Whether text that was read before is passed over quickly. -/
  skipSeen : Bool := false
  deriving DecidableEq, Repr

/-- A command line that makes no sense. -/
inductive UsageFault where
  /-- The name of the settings file is missing. -/
  | configNameMissing
  /-- The name of the label is missing. -/
  | labelNameMissing
  /-- There is no such option. -/
  | unknownOption (text : String)
  deriving DecidableEq, Repr

/-- The text of a usage fault. -/
def UsageFault.message : UsageFault → String
  | configNameMissing => "--config needs a file name"
  | labelNameMissing => "--label needs a label name"
  | unknownOption text => s!"Unknown option: {text}"

/-- Reads the options after the folder. -/
def readOptions (invocation : Invocation) : List String → Except UsageFault Invocation
  | [] => .ok invocation
  | "--config" :: rest =>
    match rest with
    | [] => .error .configNameMissing
    | file :: rest => readOptions { invocation with config := some file } rest
  | "--label" :: rest =>
    match rest with
    | [] => .error .labelNameMissing
    | name :: rest =>
      let label := String.ofList (name.toList.dropWhile (· == '*'))
      readOptions { invocation with label := some label } rest
  | "--strict" :: rest => readOptions { invocation with strict := true } rest
  | "--skip" :: rest => readOptions { invocation with skipSeen := true } rest
  | text :: _ => .error (.unknownOption text)

/-- A character as it is written between double quotes. One that would not be seen, or would join
the character in front of it, is written by its code point. -/
def quotedChar (c : Char) : String :=
  if c = '\x22' then "\\\""
  else if c = '\\' then "\\\\"
  else if c = '\n' then "\\n"
  else if c = '\r' then "\\r"
  else if c = '\t' then "\\t"
  else if c = '\x00' then "\\0"
  else if Text.isExtending c || !Text.isPrintable c then
    "\\u\x7b" ++ String.ofList (Nat.toDigits 16 c.toNat) ++ "\x7d"
  else c.toString

/-- What is reported about a usage fault. -/
def usageReport (fault : UsageFault) : String :=
  "Error: \"" ++ String.join (fault.message.toList.map quotedChar) ++ "\"\n"

/-- What is reported about a folder that does not exist. -/
def folderReport (path : String) : String :=
  s!"Error: script directory not found: {path}\n\n" ++
  "Please check:\n" ++
  "• The path points at the game directory\n" ++
  "• It contains 0.txt, 00.txt, nscript.dat or nscr_sec.dat\n"

/-- Commands for presentation that a terminal cannot carry out. They are registered so that their
lines are not taken for text. -/
def displayCommands : List String :=
  ["bg", "ld", "cl", "lsp", "csp", "print", "wait", "delay", "quake", "monocro", "nega",
   "play", "playstop", "mp3", "mp3loop", "mp3stop", "wave", "waveloop", "wavestop", "dwave",
   "dwaveloop", "dwavestop", "bgm", "bgmstop", "se", "setwindow", "windoweffect", "effect",
   "caption", "versionstr", "rmenu", "menusetwindow", "btndef", "btn", "btnwait", "select",
   "selgosub", "selnum", "click", "lrclick", "texton", "textoff", "textclear", "br",
   "erasetextwindow"]

/-- The settings of a session: those of the file that was asked for, or those in the folder. -/
def settings (invocation : Invocation) (folder : Folder) (configFile : Option Bytes) :
    Except Fault Settings := do
  let base ← match invocation.config with
    | some _ => Settings.ofRequest configFile
    | none => Settings.ofFolder folder
  return { base with strict := base.strict || invocation.strict }

/-- The machine at the beginning of a session. -/
def start (invocation : Invocation) (settings : Settings) (folder : Folder) (saves : SaveArea)
    (entropy : RandomSource := .splitMix 0) (library : Machine.Library := .standard) :
    Except Fault Machine := do
  let script ← Script.ofFolder folder invocation.folder settings.encoding
  let machine ← Machine.load script settings saves entropy library
  let machine := displayCommands.foldl Machine.registerHost machine
  match invocation.label with
  | none => return machine
  | some label =>
    match Machine.startAt label machine with
    | .ok () machine => return machine
    | .error fault _ => throw fault

/-- One step of a session. -/
inductive Turn where
  /-- The terminal does something, and the session goes on. -/
  | going (machine : Machine) (acts : List Console.Act)
  /-- The script has ended. -/
  | ended (machine : Machine)
  /-- The script has failed. -/
  | failed (machine : Machine) (failure : Failure)

/-- Makes one step. Commands for presentation are passed over. -/
def turn (console : Console) (machine : Machine) : Turn :=
  match machine.step with
  | .error failure after => .failed after failure
  | .ok event after =>
    match event with
    | .ended => .ended after
    | .text run =>
      .going after (console.showRun after.script.encoding after.skipRead run after.table)
    | .hostCommand _ =>
      match Machine.finishCommand .stay after.skipOperands with
      | .ok _ after => .going after []
      | .error failure after => .failed after failure
    | .continued | .restarted => .going after []

/-- Writes the persistent files after a failure, and gives the report. -/
def failureReport (machine : Machine) (failure : Failure) : String × Machine :=
  let report := s!"\nError during execution: {failure.describe}\n"
  match Machine.savePersistent machine with
  | .ok () after => (report, after)
  | .error fault after =>
    (report ++ s!"Could not write persistent data: {(Failure.ofFault fault).describe}\n", after)

end NovelScript.Session
