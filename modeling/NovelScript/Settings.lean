import NovelScript.Encoding
import NovelScript.Fault
import NovelScript.Folder
import NovelScript.Settings.Toml

/-!
# Settings

How the engine is set up, from an optional settings file. Keys that are absent keep their
defaults, and unknown keys are ignored.
-/

namespace NovelScript

/-- The settings of the engine. -/
structure Settings where
  /-- The script's encoding, where it is not to follow from the kind of script file. -/
  encoding : Option Encoding := none
  /-- Number of variable slots that exist from the start. -/
  variableSlots : Nat := 4096
  /-- Slots below this number are global; takes the place of the script's own choice. -/
  globalBorder : Option Nat := none
  /-- The characters after which text pauses by itself. -/
  clickMarkers : String := ""
  /-- Whether interpolated numbers have full-width digits. -/
  wideDigits : Bool := true
  /-- Least number of digits of interpolated numbers. -/
  numberPad : Nat := 0
  /-- Whether warnings are faults. -/
  strict : Bool := false
  /-- Whether text that was read is remembered. -/
  trackRead : Bool := true
  /-- The folder for saves, where it is not the folder of the script. -/
  saveFolder : Option String := none
  /-- Seed of the random numbers. -/
  randomSeed : Option Nat := none
  /-- Most calls and loops that may be open. -/
  maxNesting : Option Nat := none
  deriving DecidableEq, Repr

namespace Settings

/-- The settings file that is looked for next to a script. -/
def fileName : String := "nscript.toml"

/-- The fault of a key whose value has the wrong type. -/
def badValue (name : String) : Fault :=
  .badSettings s!"invalid value for {name}"

/-- Looks a key up; an absent one keeps the default. -/
def field {α : Type} (doc : Toml.Document) (name : String) (default : α)
    (convert : Toml.Item → Option α) : Except Fault α :=
  match doc.get? [name] with
  | none => .ok default
  | some item =>
    match convert item with
    | some a => .ok a
    | none => .error (badValue name)

/-- A truth value. -/
def boolOf : Toml.Item → Option Bool
  | .boolean b => some b
  | _ => none

/-- A natural number. -/
def natOf : Toml.Item → Option Nat
  | .integer n => if 0 ≤ n then some n.toNat else none
  | _ => none

/-- A string. -/
def stringOf : Toml.Item → Option String
  | .string text => some text
  | _ => none

/-- The encoding of a name. -/
def encodingNamed? (name : String) : Option Encoding :=
  if name = "sjis" then some .shiftJis
  else if name = "utf8" then some .utf8
  else none

/-- The encoding that `key` stands for: a name, or a table whose one member has the name and is
empty. -/
def encodingOf (doc : Toml.Document) (key : String) : Toml.Item → Option Encoding
  | .string name => encodingNamed? name
  | .table _ =>
    match doc.names [key] with
    | [name] => if doc.isEmptyAt [key, name] then encodingNamed? name else none
    | _ => none
  | _ => none

/-- The settings of a document. -/
def ofDocument (doc : Toml.Document) : Except Fault Settings := do
  let base : Settings := {}
  return {
    encoding := ← field doc "encoding" base.encoding
      (Option.map some ∘ encodingOf doc "encoding")
    variableSlots := ← field doc "variable_slots" base.variableSlots natOf
    globalBorder := ← field doc "global_border" base.globalBorder (Option.map some ∘ natOf)
    clickMarkers := ← field doc "clickstr" base.clickMarkers stringOf
    wideDigits := ← field doc "full_width_digits" base.wideDigits boolOf
    numberPad := ← field doc "number_pad" base.numberPad natOf
    strict := ← field doc "strict" base.strict boolOf
    trackRead := ← field doc "kidoku" base.trackRead boolOf
    saveFolder := ← field doc "save_dir" base.saveFolder (Option.map some ∘ stringOf)
    randomSeed := ← field doc "random_seed" base.randomSeed (Option.map some ∘ natOf)
    maxNesting := ← field doc "max_nesting" base.maxNesting (Option.map some ∘ natOf) }

/-- The settings of a text. -/
def ofText (text : String) : Except Fault Settings :=
  match Toml.parse? text with
  | some doc => ofDocument doc
  | none => .error (.badSettings "malformed document")

/-- The settings of a file. -/
def ofFile (bytes : Bytes) : Except Fault Settings :=
  if Text.Utf8.wellFormed bytes then ofText (String.ofList (Text.Utf8.decode bytes))
  else .error (.fileUnavailable "config")

/-- A settings file that was asked for; it must exist. -/
def ofRequest (contents : Option Bytes) : Except Fault Settings :=
  match contents with
  | some bytes => ofFile bytes
  | none => .error (.fileUnavailable "config")

/-- The settings in the folder of a script, or the defaults. -/
def ofFolder (folder : Folder) : Except Fault Settings :=
  match folder.read? fileName with
  | some bytes => ofFile bytes
  | none => .ok {}

end Settings

end NovelScript
