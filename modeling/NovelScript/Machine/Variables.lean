import NovelScript.Machine.Operands

/-!
# Commands on variables

Assignment, arithmetic, strings, random numbers, bounds, arrays and aliases.
-/

namespace NovelScript

/-- The order of byte strings: byte by byte, and a beginning comes before the whole. -/
def Bytes.order : Bytes → Bytes → Ordering
  | [], [] => .eq
  | [], _ :: _ => .lt
  | _ :: _, [] => .gt
  | a :: as, b :: bs => if a < b then .lt else if b < a then .gt else order as bs

namespace Machine

/-- Writes an integer. -/
def writeInt (target : VariableRef) (value : Int32) : Run Unit :=
  updateStore fun store => store.writeInt value target

/-- Writes a string. -/
def writeStr (target : VariableRef) (value : Bytes) : Run Unit :=
  updateStore fun store => store.writeStr value target

/-- Writes the string of a slot. -/
def setStr (n : Nat) (value : Bytes) : Run Unit :=
  modify fun m => { m with store := m.store.setStr n value }

/-- The integer behind a reference. -/
def valueOf (target : VariableRef) : Run Int32 := do
  Action.ofExcept ((← get).store.readInt target)

/-- Assignment. An integer variable cannot be given a string. -/
def assign : Run Outcome := do
  let target ← readVarRef
  discard <| eatToken [Byte.equals]
  if target.isStr then
    let value ← readStr
    writeStr target value
  else if (← get).atString then throw (.mismatch .integerExpression .string)
  else
    let value ← readInt
    writeInt target value
  return .advance

/-- Arithmetic on a variable. A sum with a string variable appends to it. -/
def arithmetic (op : Operator) : Run Outcome := do
  match ← readVarRef with
  | .str n =>
    if op ≠ .add then throw (.mismatch .integerVariable .stringVariable)
    let front := (← get).store.str n
    let value ← readStr
    setStr n (front ++ value)
  | target =>
    let rhs ← readInt
    let lhs ← valueOf target
    let value ← Action.ofExcept (op.apply lhs rhs)
    writeInt target value
  return .advance

/-- Adds a constant to a variable. -/
def increase (amount : Int32) : Run Outcome := do
  let target ← readIntTarget
  let value ← valueOf target
  writeInt target (value + amount)
  return .advance

/-- Compares two strings: -1, 0 or 1. -/
def compareStrings : Run Outcome := do
  let target ← readIntTarget
  let a ← readStr
  let b ← readStr
  writeInt target <| match Bytes.order a b with
    | .lt => -1
    | .eq => 0
    | .gt => 1
  return .advance

/-- Writes an integer as a string. -/
def integerToString : Run Outcome := do
  let n ← readStrTarget
  let value ← readInt
  setStr n (Decimal.ofInt value)
  return .advance

/-- Reads the integer at the front of a string. -/
def stringToInteger : Run Outcome := do
  let target ← readIntTarget
  let text ← readStr
  writeInt target (Decimal.leadingInt text)
  return .advance

/-- Number of bytes of a string. -/
def stringLength : Run Outcome := do
  let target ← readIntTarget
  let text ← readStr
  writeInt target (Int32.ofNat text.length)
  return .advance

/-- Some characters out of the middle of a string. -/
def substring : Run Outcome := do
  let n ← readStrTarget
  let text ← readStr
  let start ← readInt
  let count ← readInt
  let encoding := (← get).script.encoding
  setStr n (encoding.charSlice text start.toInt.toNat count.toInt.toNat)
  return .advance

/-- A random number below a bound. -/
def randomBelow : Run Outcome := do
  let target ← readIntTarget
  let upper ← readInt
  let (value, chance) := (← get).chance.below upper
  modify fun m => { m with chance }
  writeInt target value
  return .advance

/-- A random number between two bounds. -/
def randomBetween : Run Outcome := do
  let target ← readIntTarget
  let lower ← readInt
  let upper ← readInt
  let (value, chance) := (← get).chance.between lower upper
  modify fun m => { m with chance }
  writeInt target value
  return .advance

/-- Bounds a variable, given by its number with or without the sigil. -/
def limitVariable : Run Outcome := do
  discard <| eatToken [Byte.percent]
  let n ← readInt
  let lower ← readInt
  let upper ← readInt
  let slot ← Action.ofExcept (Store.index n)
  updateStore fun store => store.setLimit slot lower upper
  return .advance

/-- Declares an array. -/
def declareArray : Run Outcome := do
  match ← readVarRef with
  | .array no dims => updateStore fun store => store.declare no dims
  | target => throw (.mismatch .array target.kind)
  return .advance

/-- Names an integer. -/
def nameNumber : Run Outcome := do
  let name ← readName
  let value ← readInt
  let (aliases, notices) := (← get).aliases.addNumber name value
  modify fun m => { m with aliases }
  note notices
  return .advance

/-- Names a string. -/
def nameString : Run Outcome := do
  let name ← readName
  let value ← readStr
  let (aliases, notices) := (← get).aliases.addString name value
  modify fun m => { m with aliases }
  note notices
  return .advance

end Machine

end NovelScript
