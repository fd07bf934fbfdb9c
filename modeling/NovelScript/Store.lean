import NovelScript.Byte
import NovelScript.Grid

/-!
# Variables

A variable slot holds an integer and, independently, a string. Slots below the global border are
global: they outlive a reset and can be kept between sessions. A fixed number of slots exists
from the start, and any slot above them comes into being when it is first written.
-/

namespace NovelScript

/-- A reference to a variable. -/
inductive VariableRef where
  /-- The integer of slot `n`. -/
  | int (n : Nat)
  /-- The string of slot `n`. -/
  | str (n : Nat)
  /-- An element of array `no`. -/
  | array (no : Int32) (indices : List Int32)
  deriving DecidableEq, Repr

namespace VariableRef

/-- Whether the reference is to a string. -/
def isStr : VariableRef → Bool
  | str _ => true
  | _ => false

/-- The kind of a reference, for messages. -/
def kind : VariableRef → OperandKind
  | int _ => .integerVariable
  | str _ => .stringVariable
  | array _ _ => .arrayElement

end VariableRef

/-- What a variable can be given. -/
inductive Value where
  /-- An integer. -/
  | int (value : Int32)
  /-- A string. -/
  | str (value : Bytes)
  deriving DecidableEq, Repr

/-- Inclusive bounds on the integer of a slot. -/
structure Limit where
  /-- Least value. -/
  lower : Int32
  /-- Greatest value. -/
  upper : Int32
  deriving DecidableEq, Repr

/-- The value within the bounds that is nearest to `value`. -/
def Limit.clamp (limit : Limit) (value : Int32) : Int32 :=
  if value < limit.lower then limit.lower
  else if limit.upper < value then limit.upper
  else value

/-- A variable slot. -/
structure Slot where
  /-- The integer. -/
  num : Int32 := 0
  /-- The string; an empty one is absent. -/
  str : Option Bytes := none
  /-- Bounds that every write of the integer keeps. -/
  limit : Option Limit := none
  deriving DecidableEq, Repr

namespace Slot

/-- The value that a write of `value` leaves in the slot. -/
def bounded (slot : Slot) (value : Int32) : Int32 :=
  match slot.limit with
  | none => value
  | some limit => limit.clamp value

/-- The slot after a reset: zero, as far as the bounds admit it, and no string. -/
def cleared (slot : Slot) : Slot :=
  { slot with num := slot.bounded 0, str := none }

/-- Whether the slot is as it was before anything was written. -/
def isBlank (slot : Slot) : Bool :=
  slot.num == 0 && slot.str.isNone && slot.limit.isNone

/-- A string as a slot keeps it. -/
def keep (value : Bytes) : Option Bytes :=
  if value.isEmpty then none else some value

end Slot

/-- All variables of a script. -/
structure Store where
  /-- The slots that exist from the start. -/
  fixed : Array Slot
  /-- The slots above them that were written. -/
  overflow : Table Nat Slot
  /-- Slots below this number are global. -/
  border : Nat
  /-- The declared arrays. -/
  grids : Grids
  deriving DecidableEq, Repr

namespace Store

/-- A store in which nothing was written. -/
def blank (fixedSlots border : Nat) : Store :=
  { fixed := Array.replicate fixedSlots {}, overflow := [], border, grids := {} }

/-- The number of a variable; a negative one is a fault. -/
def index (n : Int32) : Except Fault Nat :=
  if n < 0 then .error (.negativeIndex n) else .ok n.toInt.toNat

/-- Whether slot `n` is global. -/
def isGlobal (store : Store) (n : Nat) : Bool :=
  n < store.border

/-- One more than the highest slot that exists. -/
def length (store : Store) : Nat :=
  match store.overflow.getLast? with
  | none => store.fixed.size
  | some (n, _) => n + 1

/-- Slot `n`, if it exists. -/
def slot? (store : Store) (n : Nat) : Option Slot :=
  if n < store.fixed.size then store.fixed[n]? else store.overflow.get? n

/-- Slot `n`, as a reader sees it. -/
def slot (store : Store) (n : Nat) : Slot :=
  (store.slot? n).getD {}

/-- Puts a slot in place of slot `n`. -/
def putSlot (store : Store) (n : Nat) (slot : Slot) : Store :=
  if n < store.fixed.size then { store with fixed := store.fixed.setIfInBounds n slot }
  else { store with overflow := store.overflow.insert n slot }

/-- Changes slot `n`, which then exists. -/
def modifySlot (store : Store) (n : Nat) (f : Slot → Slot) : Store :=
  store.putSlot n (f (store.slot n))

/-- The integer of slot `n`. -/
def int (store : Store) (n : Nat) : Int32 :=
  (store.slot n).num

/-- Writes the integer of slot `n`, within its bounds. -/
def setInt (store : Store) (n : Nat) (value : Int32) : Store :=
  store.modifySlot n fun slot => { slot with num := slot.bounded value }

/-- The string of slot `n`; an absent one reads as empty. -/
def str (store : Store) (n : Nat) : Bytes :=
  (store.slot n).str.getD []

/-- Whether slot `n` has a string. -/
def hasStr (store : Store) (n : Nat) : Bool :=
  (store.slot n).str.isSome

/-- Writes the string of slot `n`. -/
def setStr (store : Store) (n : Nat) (value : Bytes) : Store :=
  store.modifySlot n fun slot => { slot with str := Slot.keep value }

/-- Bounds slot `n`, and moves its integer within the bounds. -/
def setLimit (store : Store) (n : Nat) (lower upper : Int32) : Except Fault Store :=
  if upper < lower then .error (.limitsReversed n lower upper)
  else
    let limit : Limit := { lower, upper }
    .ok (store.modifySlot n fun slot =>
      { slot with num := limit.clamp slot.num, limit := some limit })

/-- Puts back a saved integer and string as they are; the bounds stay. -/
def restoreSlot (store : Store) (n : Nat) (num : Int32) (str : Option Bytes) : Store :=
  store.modifySlot n fun slot => { slot with num, str := str.filter (!·.isEmpty) }

/-- Reads the integer behind a reference. -/
def readInt (store : Store) : VariableRef → Except Fault Int32
  | .int n => .ok (store.int n)
  | .array no indices => store.grids.read no indices 0
  | .str n => .error (.mismatch .integerVariable (VariableRef.str n).kind)

/-- Writes the integer behind a reference. -/
def writeInt (store : Store) (value : Int32) : VariableRef → Except Fault Store
  | .int n => .ok (store.setInt n value)
  | .array no indices => do
    let grids ← store.grids.write no indices 0 value
    return { store with grids }
  | .str n => .error (.mismatch .integerVariable (VariableRef.str n).kind)

/-- Writes the string behind a reference. -/
def writeStr (store : Store) (value : Bytes) : VariableRef → Except Fault Store
  | .str n => .ok (store.setStr n value)
  | target => .error (.mismatch .stringVariable target.kind)

/-- Writes a value of either kind. -/
def write (store : Store) (target : VariableRef) : Value → Except Fault Store
  | .int value => store.writeInt value target
  | .str value => store.writeStr value target

/-- Declares an array. -/
def declare (store : Store) (no : Int32) (dims : List Int32) : Except Fault Store := do
  let grids ← store.grids.declare no dims
  return { store with grids }

/-- Forgets all local slots and all arrays. Global slots and bounds stay. -/
def reset (store : Store) : Store :=
  let clearLocal (n : Nat) (slot : Slot) : Slot := if n < store.border then slot else slot.cleared
  { store with
    fixed := store.fixed.mapIdx clearLocal
    overflow := (store.overflow.map fun (n, slot) => (n, clearLocal n slot)).filter
      fun (_, slot) => !slot.isBlank
    grids := {} }

/-- The slots from number `start` up to number `stop`, as a reader sees them. -/
def slotsBetween (store : Store) (start stop : Nat) : List Slot :=
  (List.range (stop - start)).map fun i => store.slot (start + i)

end Store

end NovelScript
