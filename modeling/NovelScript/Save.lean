import NovelScript.Nesting

/-!
# Saves

What a save slot holds: the position of the game, the open calls and loops, and the local
variables. Addresses are kept relative to labels, as a label, a line counted from it and an offset
in that line, so that they can be found again in an edited script.
-/

namespace NovelScript

/-- An address, relative to a label. -/
structure SavedPosition where
  /-- The label; empty for the start of the script. -/
  label : String
  /-- Lines from the label's line on. -/
  line : Int32
  /-- Bytes from the start of the line on. -/
  offset : Int32
  deriving DecidableEq, Repr

/-- A bookmark, relative to a label. -/
structure SavedBookmark where
  /-- The next byte of the text. -/
  position : SavedPosition
  /-- Whether narrow mode is on there. -/
  narrow : Bool
  /-- The pause that led to the call. -/
  stop : Pause
  deriving DecidableEq, Repr

/-- An open call or loop, relative to labels. -/
inductive SavedFrame where
  /-- A call; its kind is a number that may be unknown. -/
  | call (kind : UInt8) (returnTo : SavedPosition) (params : Option SavedPosition)
      (bookmark : Option SavedBookmark)
  /-- A loop. -/
  | loop (counter : VariableRef) (bound step : Int32) (body : SavedPosition) (finished : Bool)
  deriving DecidableEq, Repr

/-- Integer and string of a slot. -/
structure SavedSlot where
  /-- The integer. -/
  num : Int32
  /-- The string. -/
  str : Option Bytes
  deriving DecidableEq, Repr

/-- Local variables and arrays. -/
structure SavedVariables where
  /-- Number of the first local slot. -/
  firstLocal : Nat
  /-- The local slots among those that exist from the start. -/
  locals : List SavedSlot
  /-- The local slots above them, with their numbers. -/
  overflow : List (Nat × SavedSlot)
  /-- The arrays, with their numbers. -/
  grids : List (Int32 × Grid)
  deriving DecidableEq, Repr

/-- A saved game. -/
structure Save where
  /-- Where the game goes on. -/
  position : SavedPosition
  /-- Whether that is in the middle of text. -/
  inText : Bool
  /-- Whether narrow mode is on there. -/
  narrow : Bool
  /-- Open calls and loops, outermost first. -/
  frames : List SavedFrame
  /-- Local variables and arrays. -/
  vars : SavedVariables
  /-- A description for the player. -/
  description : Option Bytes
  deriving DecidableEq, Repr

/-- What is saved of a slot. -/
def Slot.toSaved (slot : Slot) : SavedSlot :=
  { num := slot.num, str := slot.str }

namespace SavedVariables

/-- The local variables and the arrays of a store. -/
def ofStore (store : Store) : SavedVariables :=
  let firstLocal := min store.border store.fixed.size
  { firstLocal
    locals := (store.slotsBetween firstLocal store.fixed.size).map Slot.toSaved
    overflow := (store.overflow.filter fun (n, _) => !store.isGlobal n).map
      fun (n, slot) => (n, slot.toSaved)
    grids := store.grids.table }

/-- Puts a saved slot back, unless it is global. -/
def restoreLocal (store : Store) (n : Nat) (slot : SavedSlot) : Store :=
  if store.isGlobal n then store else store.restoreSlot n slot.num slot.str

/-- Puts consecutive saved slots back, from number `n` on. -/
def restoreLocals (n : Nat) : List SavedSlot → Store → Store
  | [], store => store
  | slot :: slots, store => restoreLocals (n + 1) slots (restoreLocal store n slot)

/-- Forgets the local variables and arrays of a store and puts the saved ones in their place.
Global slots stay as they are. -/
def restore (saved : SavedVariables) (store : Store) : Store :=
  let base := restoreLocals saved.firstLocal saved.locals store.reset
  let slots := saved.overflow.foldl (fun store (n, slot) => restoreLocal store n slot) base
  { slots with grids := saved.grids.foldl (fun grids (no, grid) => grids.put no grid) slots.grids }

end SavedVariables

end NovelScript
