import NovelScript.Script

/-!
# Labels

A label is a line that begins, after blanks, with an asterisk and a name. The label table holds
the first definition of each name in the order of the script. An address belongs to the last
label at or before it.
-/

namespace NovelScript

/-- A named place in a script. -/
structure Label where
  /-- Name in lower case, without the asterisk. -/
  name : String
  /-- Address of the line that holds the label. -/
  start : Nat
  /-- Number of that line, from zero. -/
  startLine : Nat
  /-- Number of lines from there up to the next label or the end. -/
  lineCount : Nat
  deriving DecidableEq, Repr

/-- The form in which a label name is looked up: without asterisks in front, in lower case. -/
def Label.key (name : List Char) : String :=
  String.ofList ((name.dropWhile (· == '*')).map Char.toLower)

/-- The labels of a script, in order. -/
structure LabelTable where
  /-- All labels, by address. -/
  labels : List Label
  deriving DecidableEq, Repr

namespace LabelTable

/-- The name of the label on a line, if the line holds one. -/
def labelOfLine? (line : Bytes) : Option String :=
  match line.dropWhile Byte.isBlank with
  | [] => none
  | b :: rest =>
    let name := rest.takeWhile Byte.isNameByte
    if b == Byte.asterisk && !name.isEmpty then some (Bytes.toName name) else none

/-- A label line: name, address of the line and its number. -/
structure Mark where
  /-- Name in lower case. -/
  name : String
  /-- Address of the line. -/
  start : Nat
  /-- Number of the line. -/
  line : Nat
  deriving DecidableEq, Repr

/-- All label lines, given the address and the number of the first line. -/
def marksOfLines : (lines : List Bytes) → (start number : Nat) → List Mark
  | [], _, _ => []
  | line :: lines, start, number =>
    let rest := marksOfLines lines (start + line.length + 1) (number + 1)
    match labelOfLine? line with
    | some name => ⟨name, start, number⟩ :: rest
    | none => rest

/-- The first mark of each name that is not among `seen`, and a notice for each other mark. -/
def firstMarks : (marks : List Mark) → (seen : List String) → List Mark × List Notice
  | [], _ => ([], [])
  | mark :: marks, seen =>
    if mark.name ∈ seen then
      let (kept, notices) := firstMarks marks seen
      (kept, .duplicateLabel mark.name mark.line :: notices)
    else
      let (kept, notices) := firstMarks marks (mark.name :: seen)
      (mark :: kept, notices)

/-- Gives each mark the lines up to the next mark, and the last one those up to `total`. -/
def closeMarks (total : Nat) : List Mark → List Label
  | [] => []
  | [mark] => [⟨mark.name, mark.start, mark.line, total - mark.line⟩]
  | mark :: next :: marks =>
    ⟨mark.name, mark.start, mark.line, next.line - mark.line⟩ :: closeMarks total (next :: marks)

/-- The label table of a script, with a notice for each definition that does not count. -/
def build (script : Script) : LabelTable × List Notice :=
  let lines := Bytes.lines script.bytes.toList
  let (marks, notices) := firstMarks (marksOfLines lines 0 0) []
  (⟨closeMarks lines.length marks⟩, notices)

/-- The label with a given name. -/
def find? (table : LabelTable) (name : String) : Option Label :=
  table.labels.find? fun l => l.name == Label.key name.toList

/-- Whether there is a label with a given name. -/
def contains (table : LabelTable) (name : String) : Bool :=
  (table.find? name).isSome

/-- The label with a given name; a missing label is a fault. -/
def byName (table : LabelTable) (name : String) : Except Fault Label :=
  match table.find? name with
  | some label => .ok label
  | none => .error (.undefinedLabel (Label.key name.toList))

/-- The last label at or before an address, or else the first label. -/
def byAddress? (table : LabelTable) (addr : Nat) : Option Label :=
  (table.labels.filter fun l => l.start ≤ addr).getLast? <|> table.labels.head?

/-- The last label at or before a line of the script, or else the first label. -/
def byLine? (table : LabelTable) (line : Nat) : Option Label :=
  (table.labels.filter fun l => l.startLine ≤ line).getLast? <|> table.labels.head?

/-- The last label at or before an address. -/
def enclosing? (table : LabelTable) (addr : Nat) : Option Label :=
  (table.byAddress? addr).filter fun l => l.start ≤ addr

/-- The line of an address, counted from the line of its label. -/
def lineInLabel (table : LabelTable) (script : Script) (addr : Nat) : Nat :=
  let start := ((table.byAddress? addr).map Label.start).getD 0
  script.newlinesBetween start (min (max addr start) script.size)

/-- The address of a line, counted from the line of a label. -/
def lineAddress (table : LabelTable) (script : Script) (name : String) (line : Nat) :
    Except Fault Nat := do
  let label ← table.byName name
  return script.linesDown line label.start

end LabelTable

end NovelScript
