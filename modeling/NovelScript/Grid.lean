import NovelScript.Fault
import NovelScript.Table

/-!
# Arrays

An array, written `?no[i][j]…`, has one or more axes. An axis of size `d` has the indices
`0 ≤ i < d`, while the backing store is laid out row by row with `d + 1` cells to the axis.
Declared arrays are kept by number.
-/

namespace NovelScript

/-- An array of integers. -/
structure Grid where
  /-- Declared size of each axis. -/
  dims : List Int32
  /-- Backing store, row by row. -/
  cells : Array Int32
  deriving DecidableEq, Repr

namespace Grid

/-- Most axes that an array may have. -/
def maxAxes : Nat := 20

/-- Most cells that an array may have. -/
def maxCells : Nat := 16777216

/-- Number of cells for the given axes: the product of `d + 1`. There is none for a negative axis
or for a product that does not fit in 64 bits at some point. -/
def cellCount? (dims : List Int32) : Option Nat :=
  dims.foldlM
    (fun count d =>
      if d < 0 then none
      else
        let product := count * (d.toInt.toNat + 1)
        if product < UInt64.size then some product else none)
    1

/-- An array of zeros. -/
def zeros (dims : List Int32) (count : Nat) : Grid :=
  { dims, cells := Array.replicate count 0 }

/-- The cell number of an index list, counting on from cell `flat` of the axes before `axis`;
`offset` is added to the last index. -/
def cellFrom (no : Int32) (offset : Int) :
    (axis flat : Nat) → (indices dims : List Int32) → Except Fault Nat
  | axis, flat, i :: indices, d :: dims =>
    let index := if indices.isEmpty then i.toInt + offset else i.toInt
    if index < 0 ∨ d.toInt ≤ index then .error (.indexOutOfRange no index axis d)
    else cellFrom no offset (axis + 1) (flat * (d.toInt.toNat + 1) + index.toNat) indices dims
  | _, flat, _, _ => .ok flat

/-- The cell number of an index list, with `offset` added to the last index. -/
def cell (grid : Grid) (no : Int32) (indices : List Int32) (offset : Int32) : Except Fault Nat :=
  if indices.length ≠ grid.dims.length then
    .error (.indexCount no indices.length grid.dims.length)
  else cellFrom no offset.toInt 0 0 indices grid.dims

end Grid

/-- The declared arrays, by number. -/
structure Grids where
  /-- Each declared number with its array. -/
  table : Table Int32 Grid := []
  deriving DecidableEq, Repr

namespace Grids

/-- The array with a number, if it is declared. -/
def get? (grids : Grids) (no : Int32) : Option Grid :=
  grids.table.get? no

/-- Whether an array is declared. -/
def isDeclared (grids : Grids) (no : Int32) : Bool :=
  (grids.get? no).isSome

/-- Puts an array in place of the one with the same number. -/
def put (grids : Grids) (no : Int32) (grid : Grid) : Grids :=
  ⟨grids.table.insert no grid⟩

/-- The array with a number; an undeclared one is a fault. -/
def lookup (grids : Grids) (no : Int32) : Except Fault Grid :=
  match grids.get? no with
  | some grid => .ok grid
  | none => .error (.undeclared no)

/-- Declares an array of zeros. -/
def declare (grids : Grids) (no : Int32) (dims : List Int32) : Except Fault Grids :=
  if dims.isEmpty || Grid.maxAxes < dims.length then .error (.axisCount no dims.length)
  else match dims.find? (· < 0) with
    | some d => .error (.negativeAxis no d)
    | none =>
      if grids.isDeclared no then .error (.redeclared no)
      else match (Grid.cellCount? dims).filter (· ≤ Grid.maxCells) with
        | none => .error (.gridTooLarge no dims)
        | some count => .ok (grids.put no (Grid.zeros dims count))

/-- Reads an element. -/
def read (grids : Grids) (no : Int32) (indices : List Int32) (offset : Int32) :
    Except Fault Int32 := do
  let grid ← grids.lookup no
  let cell ← grid.cell no indices offset
  return grid.cells.getD cell 0

/-- Writes an element. -/
def write (grids : Grids) (no : Int32) (indices : List Int32) (offset value : Int32) :
    Except Fault Grids := do
  let grid ← grids.lookup no
  let cell ← grid.cell no indices offset
  return grids.put no { grid with cells := grid.cells.setIfInBounds cell value }

end Grids

end NovelScript
