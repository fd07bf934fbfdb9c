import NovelScript.Script

/-!
# Statements

What kind of statement starts at an address. Blanks and separators in front of a statement belong
to none. A line that is no comment, label, tag, section marker or command is narrative text; a
line that starts with a variable and an equals sign is an assignment.
-/

namespace NovelScript

/-- A command as written in a statement. -/
structure CommandWord where
  /-- Name in lower case. -/
  name : String
  /-- Whether only a built-in command is meant, and no subroutine of the script. -/
  forced : Bool
  /-- Whether the statement is an assignment, without any name. -/
  assignment : Bool
  deriving DecidableEq, Repr

/-- Kind of a statement. -/
inductive StatementKind where
  /-- A comment up to the end of the line. -/
  | comment
  /-- A label line. -/
  | label (name : String)
  /-- A tag in brackets in front of text. -/
  | pretextTag (tag : Bytes)
  /-- A command with operands. -/
  | command (word : CommandWord)
  /-- Narrative text. -/
  | text
  /-- The newline at the end of a line. -/
  | endOfLine
  /-- A section marker. -/
  | sectionMarker
  /-- The end of the script. -/
  | endOfScript
  deriving DecidableEq, Repr

/-- A statement of the script. -/
structure Statement where
  /-- What it is. -/
  kind : StatementKind
  /-- Its first byte. -/
  start : Nat
  /-- Where reading goes on: at the first operand of a command, at the text itself, or after any
  other statement. -/
  next : Nat
  /-- Warnings found while reading it. -/
  warnings : List Warning := []
  deriving DecidableEq, Repr

namespace Script

/-- Passes over blanks and statement separators. -/
def skipSeparators (s : Script) (pos : Nat) : Nat :=
  s.advanceWhile (fun b => Byte.isBlank b || b == Byte.colon) pos

/-- The end of what could be the target of an assignment: sigils, blanks, name bytes, and
anything inside brackets. `depth` is the number of open brackets. -/
def targetEnd (s : Script) (depth pos : Nat) : Nat :=
  if h : pos < s.bytes.size then
    let b := s.bytes[pos]
    if b == Byte.leftBracket then targetEnd s (depth + 1) (pos + 1)
    else if b == Byte.rightBracket && 0 < depth then targetEnd s (depth - 1) (pos + 1)
    else if Byte.isSigil b || Byte.isBlank b || Byte.isNameByte b || 0 < depth then
      targetEnd s depth (pos + 1)
    else pos
  else pos
termination_by s.bytes.size - pos

/-- Whether the text at `pos` is the target of an assignment with a single equals sign after
it. -/
def isAssignment (s : Script) (pos : Nat) : Bool :=
  let stop := s.targetEnd 0 pos
  s.isAt stop Byte.equals && !s.isAt (stop + 1) Byte.equals

/-- The command whose name starts at `pos`. -/
def commandAt (s : Script) (start pos : Nat) (forced : Bool) : Statement :=
  let (name, after) := (s.name? pos).getD ("", pos)
  { kind := .command { name, forced, assignment := false }, start, next := after }

/-- The tag whose bracket stands at `start`. -/
def tagAt (s : Script) (start : Nat) : Statement :=
  let stop := s.advanceChars false (fun b => b == Byte.newline || b == Byte.rightBracket)
    (start + 1)
  let kind := StatementKind.pretextTag (s.slice (start + 1) stop)
  if s.isAt stop Byte.rightBracket then { kind, start, next := stop + 1 }
  else { kind, start, next := stop, warnings := [.openTag] }

/-- The statement at an address. Tags are read only if `tags` is set. -/
def statementAt (s : Script) (addr : Nat) (tags : Bool) : Statement :=
  let start := s.skipSeparators (min addr s.size)
  match s.byte? start with
  | none => { kind := .endOfScript, start, next := start }
  | some b =>
    if b == Byte.newline then { kind := .endOfLine, start, next := start + 1 }
    else if b == Byte.semicolon then
      { kind := .comment, start, next := s.skipToLineEnd false start }
    else if b == Byte.asterisk && s.holdsAt (start + 1) Byte.isNameByte then
      let (name, after) := (s.name? (start + 1)).getD ("", start + 1)
      { kind := .label name, start, next := s.skipToLineEnd false after }
    else if b == Byte.tilde then { kind := .sectionMarker, start, next := start + 1 }
    else if b == Byte.leftBracket && tags then s.tagAt start
    else if b == Byte.underscore && s.holdsAt (start + 1) Byte.isAlpha then
      s.commandAt start (start + 1) true
    else if Byte.isAlpha b then s.commandAt start start false
    else if Byte.isSigil b && s.isAssignment start then
      { kind := .command { name := "mov", forced := true, assignment := true }, start,
        next := start }
    else { kind := .text, start, next := start }

end Script

end NovelScript
