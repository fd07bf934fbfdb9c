import NovelScript.Proofs.Save.RoundTrip

/-!
# Edits of the variables

Everything that can happen to the variables, one operation at a time. The commands of a script,
the blocks in its text, loading a game and the host itself only ever make such edits, so that a
property which every edit keeps holds as long as the engine runs.

What a script writes has a number that a script can write, and arrays are as they can be declared. A
host is free to do otherwise.
-/

namespace NovelScript

/-- The slot of the reference has a number that a script can write. -/
def VariableRef.Numbered : VariableRef → Prop
  | int n | str n => n < 2 ^ 31
  | array _ _ => True

/-- A reference that can be saved can be written. -/
theorem VariableRef.Storable.numbered {ref : VariableRef} (h : ref.Storable) : ref.Numbered := by
  cases ref with
  | int n | str n => exact h
  | array no indices => exact trivial

namespace Store

/-- One operation on the variables. -/
inductive Edit where
  /-- Writes an integer, within the bounds of its slot. -/
  | setInt (n : Nat) (value : Int32)
  /-- Writes a string. -/
  | setStr (n : Nat) (value : Bytes)
  /-- Bounds a slot. -/
  | setLimit (n : Nat) (lower upper : Int32)
  /-- Puts back an integer and a string as they are. -/
  | restoreSlot (n : Nat) (num : Int32) (str : Option Bytes)
  /-- Moves the border between global and local slots. -/
  | setBorder (border : Nat)
  /-- Declares an array. -/
  | declare (no : Int32) (dims : List Int32)
  /-- Writes an element of an array. -/
  | setElement (no : Int32) (indices : List Int32) (offset value : Int32)
  /-- Puts an array in place of the one with the same number. -/
  | putGrid (no : Int32) (grid : Grid)
  /-- Forgets all arrays. -/
  | clearGrids
  /-- Forgets all local slots and all arrays. -/
  | reset
  deriving DecidableEq, Repr

/-- The variables after an edit. -/
def Edit.apply (store : Store) : Edit → Except Fault Store
  | setInt n value => .ok (store.setInt n value)
  | setStr n value => .ok (store.setStr n value)
  | setLimit n lower upper => store.setLimit n lower upper
  | restoreSlot n num str => .ok (store.restoreSlot n num str)
  | setBorder border => .ok { store with border }
  | declare no dims => store.declare no dims
  | setElement no indices offset value => do
    let grids ← store.grids.write no indices offset value
    return { store with grids }
  | putGrid no grid => .ok { store with grids := store.grids.put no grid }
  | clearGrids => .ok { store with grids := {} }
  | reset => .ok store.reset

/-- The slot is global, or it has a number that a script can write. -/
def Nameable (store : Store) (n : Nat) : Prop :=
  n < 2 ^ 31 ∨ n < store.border

/-- The edit writes slots that can be named and arrays that could be declared, and leaves the border
where it is. -/
def Edit.Fits (store : Store) : Edit → Prop
  | setInt n _ | setStr n _ | setLimit n _ _ | restoreSlot n _ _ => store.Nameable n
  | putGrid _ grid => grid.Storable
  | setBorder _ => False
  | declare _ _ | setElement _ _ _ _ | clearGrids | reset => True

/-- The edit is one that a script makes, by a command or by a block in its text. A script writes
slots that can be named, and it puts nothing in as it is. -/
def Edit.Scripted (store : Store) : Edit → Prop
  | setInt n _ | setStr n _ | setLimit n _ _ => store.Nameable n
  | declare _ _ | setElement _ _ _ _ | reset => True
  | restoreSlot _ _ _ | putGrid _ _ | setBorder _ | clearGrids => False

/-- An edit that a script makes fits the store. -/
theorem Edit.Scripted.fits {store : Store} {edit : Edit} (h : edit.Scripted store) :
    edit.Fits store := by
  cases edit with
  | setInt | setStr | setLimit => exact h
  | declare | setElement | reset => exact trivial
  | restoreSlot | putGrid | setBorder | clearGrids => exact absurd h id

end Store

end NovelScript
