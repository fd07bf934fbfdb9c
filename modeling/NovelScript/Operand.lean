import NovelScript.Action
import NovelScript.Alias
import NovelScript.Arithmetic
import NovelScript.Label
import NovelScript.Script
import NovelScript.Store
import NovelScript.Text.Blank

/-!
# Operands

Readers for the operands of statements: integer expressions, string expressions, variable
references and labels. A reader starts at a position of the script, evaluates while it reads, and
leaves the position after the operand.

An integer expression is read with three operands in view. When the second operator binds tighter
than the first, the right pair is folded, and otherwise the left pair. A minus sign is a sign only
at the start of an expression; after an operator it reads as an empty term, which is zero, and
then as a subtraction.

The readers of expressions call each other, so they carry a bound on the number of calls.
`callBound` is large enough for every script, because each round of calls consumes a byte.
-/

namespace NovelScript.Operand

/-- What operands are read from and evaluated in. -/
structure Scope where
  /-- The text that holds the operands. -/
  script : Script
  /-- Whether every byte of a string literal is a character of its own. -/
  narrow : Bool
  /-- The variables. -/
  store : Store
  /-- The named constants. -/
  aliases : Aliases

/-- How far a reader has come. -/
structure Cursor where
  /-- The next byte to read. -/
  pos : Nat
  /-- Warnings so far. -/
  warnings : List Warning := []
  deriving DecidableEq, Repr

/-- A reader of operands. -/
abbrev Reader := Action Cursor

/-- The next position. -/
def position : Reader Nat := do
  return (← get).pos

/-- Goes on at another position. -/
def moveTo (pos : Nat) : Reader Unit :=
  modify fun c => { c with pos }

/-- Adds a warning. -/
def warn (warning : Warning) : Reader Unit :=
  modify fun c => { c with warnings := c.warnings ++ [warning] }

namespace Scope

variable (scope : Scope)

/-- The byte under the cursor. -/
def peek? : Reader (Option UInt8) := do
  return scope.script.byte? (← position)

/-- Passes over blanks. -/
def skipBlanks : Reader Unit := do
  moveTo (scope.script.skipBlanks (← position))

/-- Passes over the byte `b`, if it is next. -/
def eat (b : UInt8) : Reader Bool := do
  let pos ← position
  if scope.script.isAt pos b then
    moveTo (pos + 1)
    return true
  else return false

/-- Passes over a keyword, if it is next. -/
def eatKeyword (word : String) : Reader Bool := do
  match scope.script.keyword? word (← position) with
  | some after =>
    moveTo after
    return true
  | none => return false

/-- A decimal or hexadecimal literal or a numeric alias. An unknown name is passed over with a
warning and reads as zero, and text that is no term at all reads as zero too. A string alias is
no number. -/
def number? : Reader (Option Int32) := do
  let script := scope.script
  let pos ← position
  if script.startsWith [0x30, 0x78] pos || script.startsWith [0x30, 0x58] pos then
    let after := script.advanceWhile (fun b => (Byte.hexDigit? b).isSome) (pos + 2)
    moveTo after
    return some <| (script.slice (pos + 2) after).foldl
      (fun value b => Decimal.shiftIn 16 value ((Byte.hexDigit? b).getD 0)) 0
  else if script.holdsAt pos Byte.isDigit then
    let after := script.advanceWhile Byte.isDigit pos
    moveTo after
    return some (Decimal.byteValue (script.slice pos after))
  else match script.name? pos with
    | none => return some 0
    | some (name, after) =>
      match scope.aliases.number? name with
      | some value =>
        moveTo after
        return some value
      | none =>
        if (scope.aliases.string? name).isSome then return none
        else
          moveTo after
          warn (.unknownAlias name)
          return some 0

/-- Whether the remainder operator stands at `pos`: the word must be followed by something that
can start a term. -/
def isModAt (pos : Nat) : Bool :=
  scope.script.startsWithWord [0x6d, 0x6f, 0x64] pos &&
    scope.script.holdsAt (pos + 3) fun b =>
      Byte.isBlank b || Byte.isSigil b || b == Byte.leftParen || Byte.isDigit b

/-- The operator at `pos` and the position after it. -/
def operatorAt? (pos : Nat) : Option (Operator × Nat) :=
  match scope.script.byte? pos with
  | none => none
  | some b =>
    if b == Byte.plus then some (.add, pos + 1)
    else if b == Byte.minus then some (.sub, pos + 1)
    else if b == Byte.asterisk then some (.mul, pos + 1)
    else if b == Byte.slash then some (.div, pos + 1)
    else if scope.isModAt pos then some (.mod, pos + 3)
    else none

mutual

/-- An integer expression. -/
def expression : (calls : Nat) → Reader Int32
  | 0 => return 0
  | calls + 1 => do
    scope.skipBlanks
    let negative ← scope.eat Byte.minus
    scope.skipBlanks
    let term ← factor calls
    let value := term.getD 0
    let first := if negative then -value else value
    match ← operation? calls with
    | none => return first
    | some (op, second) => continuation calls first op second

/-- The rest of an expression after `lhs op rhs`. -/
def continuation : (calls : Nat) → (lhs : Int32) → (op : Operator) → (rhs : Int32) → Reader Int32
  | 0, lhs, _, _ => return lhs
  | calls + 1, lhs, op, rhs => do
    match ← operation? calls with
    | none => Action.ofExcept (op.apply lhs rhs)
    | some (next, third) =>
      if !op.isTight && next.isTight then
        let folded ← Action.ofExcept (next.apply rhs third)
        continuation calls lhs op folded
      else
        let folded ← Action.ofExcept (op.apply lhs rhs)
        continuation calls folded next third

/-- An operator and the term after it. Where there is no operator, or what follows is no term,
nothing but blanks is passed over. -/
def operation? : (calls : Nat) → Reader (Option (Operator × Int32))
  | 0 => return none
  | calls + 1 => do
    scope.skipBlanks
    let start ← position
    match scope.operatorAt? start with
    | none => return none
    | some (op, after) =>
      moveTo after
      scope.skipBlanks
      match ← factor calls with
      | some value => return some (op, value)
      | none =>
        moveTo start
        return none

/-- A parenthesised expression, a variable, a literal or an alias, and the blanks after it. -/
def factor : (calls : Nat) → Reader (Option Int32)
  | 0 => return none
  | calls + 1 => do
    if ← scope.eat Byte.leftParen then
      let value ← expression calls
      scope.skipBlanks
      unless ← scope.eat Byte.rightParen do throw .missingParen
      scope.skipBlanks
      return some value
    else
      let pos ← position
      if scope.script.isAt pos Byte.percent || scope.script.isAt pos Byte.question then
        let target ← intRefWithin calls
        let value ← Action.ofExcept (scope.store.readInt target)
        scope.skipBlanks
        return some value
      else
        let value ← scope.number?
        scope.skipBlanks
        return value

/-- A reference to an integer variable or an array element. -/
def intRefWithin : (calls : Nat) → Reader VariableRef
  | 0 => throw (.mismatch .integerVariable .nonVariable)
  | calls + 1 => do
    scope.skipBlanks
    if ← scope.eat Byte.percent then
      let n ← indexTerm calls
      let slot ← Action.ofExcept (Store.index n)
      return .int slot
    else if ← scope.eat Byte.question then
      let no ← indexTerm calls
      scope.skipBlanks
      let indices ← subscripts calls no
      return .array no indices
    else throw (.mismatch .integerVariable .nonVariable)

/-- The indices in brackets after the number of an array. -/
def subscripts : (calls : Nat) → (no : Int32) → Reader (List Int32)
  | 0, _ => return []
  | calls + 1, no => do
    if ← scope.eat Byte.leftBracket then
      let index ← expression calls
      scope.skipBlanks
      unless ← scope.eat Byte.rightBracket do throw (.missingBracket no)
      scope.skipBlanks
      let rest ← subscripts calls no
      return index :: rest
    else return []

/-- The number after a sigil: a literal, an alias, or the value of another variable. -/
def indexTerm : (calls : Nat) → Reader Int32
  | 0 => return 0
  | calls + 1 => do
    let pos ← position
    if scope.script.isAt pos Byte.percent || scope.script.isAt pos Byte.question then
      let target ← intRefWithin calls
      Action.ofExcept (scope.store.readInt target)
    else
      let value ← scope.number?
      return value.getD 0

end

/-- Bound on the calls that reading an expression from `pos` on can need (`callBound_suffices`). -/
def callBound (pos : Nat) : Nat :=
  4 * (scope.script.size - pos) + 8

/-- Reads an integer expression. -/
def int : Reader Int32 := do
  scope.expression (scope.callBound (← position))

/-- Reads a reference to an integer variable or an array element. -/
def intRef : Reader VariableRef := do
  scope.intRefWithin (scope.callBound (← position))

/-- Reads the number after a sigil. -/
def index : Reader Int32 := do
  scope.indexTerm (scope.callBound (← position))

/-- Reads a reference to a variable of any kind, and the blanks after it. -/
def varRef : Reader VariableRef := do
  scope.skipBlanks
  if ← scope.eat Byte.dollar then
    let n ← scope.index
    scope.skipBlanks
    let slot ← Action.ofExcept (Store.index n)
    return .str slot
  else
    let target ← scope.intRef
    scope.skipBlanks
    return target

/-- Reads a string variable inside text, and gives its number. Blanks after it are text. -/
def strIndex : Reader Nat := do
  if ← scope.eat Byte.dollar then
    let n ← scope.index
    Action.ofExcept (Store.index n)
  else throw (.mismatch .stringVariable .nonVariable)

/-- Whether a string expression starts under the cursor. -/
def startsString (pos : Nat) : Bool :=
  match scope.script.byte? pos with
  | none => false
  | some b =>
    if b == Byte.quote || b == Byte.dollar || b == Byte.backquote then true
    else match scope.script.name? pos with
      | some (name, _) => (scope.aliases.string? name).isSome
      | none => false

/-- The rest of a string literal that was opened with `delimiter`. -/
def literal (delimiter : UInt8) : Reader Bytes := do
  let start ← position
  let stop := scope.script.advanceChars scope.narrow
    (fun b => b == Byte.newline || b == delimiter) start
  if scope.script.isAt stop delimiter then
    moveTo (stop + 1)
  else
    moveTo stop
    warn .openString
  return scope.script.slice start stop

/-- One term of a string expression: a literal, a string variable, a label with its asterisk, or
a string alias. -/
def strTerm : Reader Bytes := do
  scope.skipBlanks
  let script := scope.script
  let pos ← position
  match script.byte? pos with
  | none => throw (.mismatch .string .nonString)
  | some b =>
    if b == Byte.quote || b == Byte.backquote then
      moveTo (pos + 1)
      scope.literal b
    else if b == Byte.dollar then
      moveTo (pos + 1)
      let n ← scope.index
      let slot ← Action.ofExcept (Store.index n)
      return scope.store.str slot
    else if b == Byte.asterisk then
      let after := ((script.name? (pos + 1)).map Prod.snd).getD (pos + 1)
      moveTo after
      return script.slice pos after
    else match script.name? pos with
      | some (name, after) =>
        match scope.aliases.string? name with
        | some value =>
          moveTo after
          return value
        | none => throw (.mismatch .string (.word name))
      | none =>
        if b == Byte.percent || b == Byte.question then
          throw (.mismatch .string .integerVariable)
        else throw (.mismatch .string .nonString)

/-- The rest of a string expression after `front`. Every term takes at least one byte, which bounds
their number (`strTail_eq_of_size_lt`). -/
def strTail : (terms : Nat) → (front : Bytes) → Reader Bytes
  | 0, front => return front
  | terms + 1, front => do
    scope.skipBlanks
    if ← scope.eat Byte.plus then
      scope.skipBlanks
      let term ← scope.strTerm
      strTail terms (front ++ term)
    else return front

/-- Reads a string expression: terms joined by plus signs. -/
def str : Reader Bytes := do
  let first ← scope.strTerm
  let pos ← position
  scope.strTail (scope.script.size - pos + 1) first

/-- Reads an assignment: a variable, an equals sign and an expression of the variable's kind. -/
def assignment : Reader (VariableRef × Value) := do
  let target ← scope.varRef
  scope.skipBlanks
  unless ← scope.eat Byte.equals do throw .blockEqualsExpected
  scope.skipBlanks
  if target.isStr then
    let value ← scope.str
    return (target, .str value)
  else
    let value ← scope.int
    return (target, .int value)

/-- Reads a label: an asterisk and a name, or a string expression that gives one. -/
def label : Reader String := do
  scope.skipBlanks
  if ← scope.eat Byte.asterisk then
    match scope.script.name? (← position) with
    | none => throw .labelNameExpected
    | some (name, after) =>
      moveTo after
      scope.skipBlanks
      return name
  else
    let bytes ← scope.str
    let name := Label.key (Text.trim (Text.Utf8.decode bytes))
    if name.isEmpty then throw .emptyLabel
    return name

/-- Reads a bare name. -/
def name : Reader String := do
  scope.skipBlanks
  match scope.script.name? (← position) with
  | none => throw .nameExpected
  | some (name, after) =>
    moveTo after
    return name

end Scope

end NovelScript.Operand
