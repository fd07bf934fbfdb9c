import NovelScript.Statement

/-!
# Commands

The commands that the engine itself carries out, and how a command word is resolved: first the
subroutines that the script defines, then the built-in commands, then those that the host has
registered. A word that is none of these is no command, and its line is text.
-/

namespace NovelScript

/-- A built-in command. -/
inductive Command where
  | mov | add | sub | mul | div | mod | inc | dec
  | cmp | itoa | atoi | len | mid | rnd | rnd2
  | intlimit | dim | numalias | stralias
  | goto | gosub | returnCall | rgosub | forLoop | next | breakLoop
  | ifHolds | notIf | jumpf | jumpb | skip | endScript | game | reset | defsub | getparam
  | textgosub | pretextgosub | gettag | clickstr
  | labellog | filelog | globalon | kidokuskip | savegame | loadgame | savefileexist
  deriving DecidableEq, Repr

namespace Command

/-- All built-in commands with their names. -/
def names : List (String × Command) :=
  [("mov", mov), ("add", add), ("sub", sub), ("mul", mul), ("div", div), ("mod", mod),
   ("inc", inc), ("dec", dec), ("cmp", cmp), ("itoa", itoa), ("atoi", atoi), ("len", len),
   ("mid", mid), ("rnd", rnd), ("rnd2", rnd2), ("intlimit", intlimit), ("dim", dim),
   ("numalias", numalias), ("stralias", stralias), ("goto", goto), ("gosub", gosub),
   ("return", returnCall), ("rgosub", rgosub), ("for", forLoop), ("next", next),
   ("break", breakLoop), ("if", ifHolds), ("notif", notIf), ("jumpf", jumpf), ("jumpb", jumpb),
   ("skip", skip), ("end", endScript), ("game", game), ("reset", reset), ("defsub", defsub),
   ("getparam", getparam), ("textgosub", textgosub), ("pretextgosub", pretextgosub),
   ("gettag", gettag), ("clickstr", clickstr), ("labellog", labellog), ("filelog", filelog),
   ("globalon", globalon), ("kidokuskip", kidokuskip), ("savegame", savegame),
   ("loadgame", loadgame), ("savefileexist", savefileexist)]

/-- The built-in command with a name. -/
def ofName? (name : String) : Option Command :=
  names.lookup name

end Command

/-- What a command word stands for. -/
inductive Resolution where
  /-- A subroutine of the script, at a label. -/
  | subroutine (label : String)
  /-- A built-in command. -/
  | builtin (command : Command)
  /-- A command of the host. -/
  | host (name : String)
  /-- No command. -/
  | unknown
  deriving DecidableEq, Repr

/-- The commands that are not built in. -/
structure CommandTable where
  /-- Subroutine commands with their labels; the latest definition of a name is the first. -/
  subroutines : List (String × String) := []
  /-- Names that the host has registered. -/
  host : List String := []
  deriving DecidableEq, Repr

namespace CommandTable

/-- Makes a name a command that runs a label; a later definition replaces an earlier one. -/
def define (table : CommandTable) (name label : String) : CommandTable :=
  { table with subroutines := (name.toLower, label.toLower) :: table.subroutines }

/-- Makes a name a command of the host. -/
def register (table : CommandTable) (name : String) : CommandTable :=
  { table with host := name.toLower :: table.host }

/-- What a command word stands for. A forced word is no subroutine. -/
def resolve (table : CommandTable) (word : CommandWord) : Resolution :=
  match if word.forced then none else table.subroutines.lookup word.name with
  | some label => .subroutine label
  | none =>
    match Command.ofName? word.name with
    | some command => .builtin command
    | none => if word.name ∈ table.host then .host word.name else .unknown

end CommandTable

end NovelScript
