import NovelScript.Machine

/-!
# Operands of the current statement

Commands, built in or of the host, read their operands one after another. A comma after an
operand is passed over with it. A reader that fails leaves the machine where it was, apart from
the warnings that it gave.
-/

namespace NovelScript.Machine

/-- What operands are read from and evaluated in. -/
def scope (m : Machine) : Operand.Scope :=
  { script := m.script, narrow := false, store := m.store, aliases := m.aliases }

/-- Where reading of operands goes on. -/
def cursor (m : Machine) : Nat :=
  min m.pc m.script.size

/-- Reads an operand, with the comma that may follow it. -/
def operand {α : Type} (read : Operand.Scope → Operand.Reader α) : Run α := do
  let m ← get
  match (read m.scope).run { pos := m.cursor } with
  | .ok value after =>
    warnAll after.warnings
    moveTo (m.script.skipBlanks (m.script.eat Byte.comma (m.script.skipBlanks after.pos)))
    return value
  | .error fault after =>
    warnAll after.warnings
    throw fault

/-- Reads an integer expression. -/
def readInt : Run Int32 :=
  operand Operand.Scope.int

/-- Reads a string expression. -/
def readStr : Run Bytes :=
  operand Operand.Scope.str

/-- Reads a label. -/
def readLabel : Run String :=
  operand Operand.Scope.label

/-- Reads a variable reference. -/
def readVarRef : Run VariableRef :=
  operand Operand.Scope.varRef

/-- Reads a bare name. -/
def readName : Run String :=
  operand Operand.Scope.name

/-- Reads a reference that must not be to a string. -/
def readIntTarget : Run VariableRef := do
  let target ← readVarRef
  if target.isStr then throw (.mismatch .integerVariable target.kind)
  return target

/-- Reads a reference that must be to a string, and gives its number. -/
def readStrTarget : Run Nat := do
  match ← readVarRef with
  | .str n => return n
  | target => throw (.mismatch .stringVariable target.kind)

/-- Whether the next operand is a string expression. -/
def atString (m : Machine) : Bool :=
  m.scope.startsString (m.script.skipBlanks m.cursor)

/-- Whether there is another operand. -/
def hasMore (m : Machine) : Bool :=
  !m.script.atStatementEnd (m.script.skipBlanks m.cursor)

/-- Passes over the operands that were not read. -/
def skipOperands (m : Machine) : Machine :=
  { m with pc := m.statementEnd m.pc }

/-- Passes over a keyword, if it is next. -/
def eatKeyword (word : String) : Run Bool := do
  let m ← get
  match m.script.keyword? word (m.script.skipBlanks m.cursor) with
  | some after =>
    moveTo (m.script.skipBlanks after)
    return true
  | none => return false

/-- Passes over punctuation, if it is next. -/
def eatToken (token : Bytes) : Run Bool := do
  let m ← get
  let start := m.script.skipBlanks m.cursor
  if m.script.startsWith token start then
    moveTo (m.script.skipBlanks (start + token.length))
    return true
  else return false

/-- Passes over punctuation that must be next. -/
def expectToken (token : String) : Run Unit := do
  unless ← eatToken (Bytes.ofText token) do throw (.tokenExpected token)

/-- Does something at another address and comes back; gives the address that it came to. -/
def atAddress {α : Type} (addr : Nat) (action : Run α) : Run (α × Nat) := fun m =>
  match action { m with pc := addr } with
  | .ok a after => .ok (a, after.pc) { after with pc := m.pc }
  | .error fault after => .error fault { after with pc := m.pc }

end NovelScript.Machine
