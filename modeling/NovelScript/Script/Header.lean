import NovelScript.Script
import NovelScript.Text.Blank

/-!
# Script headers

The comment lines at the very top of a script choose the screen size, the global border and an
identifier of the game. The first line that is no comment ends the header.
-/

namespace NovelScript

/-- What the top of a script declares. -/
structure Header where
  /-- Width of the screen. -/
  width : Nat := 640
  /-- Height of the screen. -/
  height : Nat := 480
  /-- Variable slots below this number are global. -/
  globalBorder : Option Nat := none
  /-- Identifier of the game. -/
  gameId : Option String := none
  deriving DecidableEq, Repr

namespace Header

/-- The rest of a text after a word, if the text begins with the word. -/
def after? (word : String) (text : List Char) : Option (List Char) :=
  Text.dropFront? word.toList text

/-- Takes one item of a header line into account; unknown items change nothing. -/
def addItem (header : Header) (item : List Char) : Header :=
  match after? "mode" item with
  | some mode =>
    if mode = "800".toList then { header with width := 800, height := 600 }
    else if mode = "400".toList then { header with width := 400, height := 300 }
    else if mode = "320".toList then { header with width := 320, height := 240 }
    else header
  | none =>
    match after? "value" item with
    | some value =>
      match Decimal.size? (Text.trim value) with
      | some n => { header with globalBorder := some n }
      | none => header
    | none => header

/-- Takes one header line into account. -/
def addLine (header : Header) (line : List Char) : Header :=
  match after? "gameid" line with
  | some id => { header with gameId := some (String.ofList (Text.trim id)) }
  | none => (Text.splitAt ',' line).foldl (fun h item => h.addItem (Text.trim item)) header

/-- Takes the comment lines at the front of a list of lines into account. -/
def addLines (header : Header) : List Bytes → Header
  | (b :: rest) :: lines =>
    if b == Byte.semicolon then
      addLines (header.addLine (Text.trim (Text.Utf8.decode rest))) lines
    else header
  | _ => header

/-- The header of a script. -/
def ofBytes (bytes : Bytes) : Header :=
  addLines {} (Bytes.lines bytes)

end Header

end NovelScript
