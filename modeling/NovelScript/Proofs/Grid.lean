import NovelScript.Proofs.Machine.Loading
import NovelScript.Proofs.Store.Restore
import Mathlib.Algebra.BigOperators.Group.List.Basic

/-!
# Arrays out of save files

An array is complete when no axis is negative and it has one cell for every choice of a number
from `0` to `d` for each axis of size `d`. In a complete array the cell of an index list exists, so
that an access either happens inside the backing store or is refused as out of bounds. Every array
in a save file that can be read is complete. A save file may however hold an array with any number
of axes, which no declaration admits.
-/

namespace NovelScript

/-! ## Cells of an array -/

namespace Grid

/-- Number of cells for the given axes. -/
def volume (dims : List Int32) : Nat :=
  (dims.map fun d => d.toInt.toNat + 1).prod

/-- An array without dimensions has one element. -/
@[simp]
theorem volume_nil : volume [] = 1 := rfl

/-- A further dimension multiplies the number of elements by its size. -/
@[simp]
theorem volume_cons (d : Int32) (dims : List Int32) :
    volume (d :: dims) = (d.toInt.toNat + 1) * volume dims := by
  rw [volume, List.map_cons, List.prod_cons, volume]

/-- The array has as many cells as its axes ask for, and not too many. -/
structure Complete (grid : Grid) : Prop where
  /-- No axis is negative. -/
  nonneg : ∀ d ∈ grid.dims, 0 ≤ d
  /-- The cells are those of the axes. -/
  cells : grid.cells.size = volume grid.dims
  /-- There are not too many of them. -/
  small : grid.cells.size ≤ maxCells

/-- A count of cells that goes on from `count` multiplies it by the cells of the other axes. -/
theorem foldlM_eq_some {dims : List Int32} {count total : Nat}
    (h : dims.foldlM
      (fun count d =>
        if d < 0 then none
        else
          let product := count * (d.toInt.toNat + 1)
          if product < UInt64.size then some product else none) count = some total) :
    total = count * volume dims := by
  induction dims generalizing count with
  | nil =>
    cases h
    rw [volume_nil, Nat.mul_one]
  | cons d dims ih =>
    rw [List.foldlM_cons] at h
    obtain ⟨product, hproduct, h⟩ := Option.bind_eq_some_iff.mp h
    have hstep : product = count * (d.toInt.toNat + 1) := by
      split at hproduct
      · cases hproduct
      · dsimp only at hproduct
        split at hproduct
        · exact (Option.some.inj hproduct).symm
        · cases hproduct
    rw [ih h, hstep, volume_cons, Nat.mul_assoc]

/-- The cells that are counted are those of the axes. -/
theorem eq_volume_of_cellCount? {dims : List Int32} {count : Nat}
    (h : cellCount? dims = some count) : count = volume dims := by
  rw [foldlM_eq_some h, Nat.one_mul]

private theorem Storable.complete {grid : Grid} (h : grid.Storable) : grid.Complete where
  nonneg := h.nonneg
  cells := eq_volume_of_cellCount? h.count
  small := h.small

/-- Writing a cell leaves the size of an array as it is. -/
theorem Complete.setCell {grid : Grid} (h : grid.Complete) (cell : Nat) (value : Int32) :
    Complete { grid with cells := grid.cells.setIfInBounds cell value } where
  nonneg := h.nonneg
  cells := by simpa using h.cells
  small := by simpa using h.small

/-- Below a bound, a place in a row is below the end of the last row. -/
theorem radix_lt {radix high low bound : Nat} (hhigh : high < bound) (hlow : low < radix) :
    high * radix + low < bound * radix := by
  calc high * radix + low < high * radix + radix := by omega
    _ = (high + 1) * radix := by rw [Nat.succ_mul]
    _ ≤ bound * radix := Nat.mul_le_mul_right _ hhigh

/-- An index list that counts on from cell `flat` of `bound` cells comes to one of the cells that
the other axes make of these, or it is refused as out of bounds. -/
theorem cellFrom_lt (no : Int32) (offset : Int) (axis : Nat) {flat bound : Nat}
    {indices dims : List Int32} (hlength : indices.length = dims.length) (hflat : flat < bound) :
    (∃ cell, cellFrom no offset axis flat indices dims = .ok cell ∧ cell < bound * volume dims) ∨
      ∃ fault, cellFrom no offset axis flat indices dims = .error fault ∧
        fault.kind = .bounds := by
  induction indices generalizing axis flat bound dims with
  | nil =>
    obtain rfl := List.eq_nil_of_length_eq_zero hlength.symm
    exact .inl ⟨flat, rfl, by rwa [volume_nil, Nat.mul_one]⟩
  | cons i indices ih =>
    obtain ⟨d, dims, rfl⟩ := List.exists_cons_of_length_eq_add_one hlength.symm
    rw [cellFrom]
    generalize (if indices.isEmpty then i.toInt + offset else i.toInt) = index
    split
    · exact .inr ⟨_, rfl, rfl⟩
    · next hrange =>
      have hindex : index.toNat < d.toInt.toNat + 1 := by omega
      rw [volume_cons, ← Nat.mul_assoc]
      exact ih (axis + 1) (Nat.succ.inj hlength) (radix_lt hflat hindex)

/-- In a complete array an index list names a cell that exists, or it is refused as out of
bounds. -/
theorem Complete.cell_lt {grid : Grid} (h : grid.Complete) (no : Int32) (indices : List Int32)
    (offset : Int32) :
    (∃ cell, grid.cell no indices offset = .ok cell ∧ indices.length = grid.dims.length ∧
      cell < grid.cells.size) ∨
      ∃ fault, grid.cell no indices offset = .error fault ∧ fault.kind = .bounds := by
  rw [cell]
  split
  · exact .inr ⟨_, rfl, rfl⟩
  · next hlength =>
    rw [not_not] at hlength
    obtain ⟨cell, hcell, hlt⟩ | hfault :=
      cellFrom_lt no offset.toInt 0 hlength Nat.zero_lt_one
    · rw [Nat.one_mul, ← h.cells] at hlt
      exact .inl ⟨cell, hcell, hlength, hlt⟩
    · exact .inr hfault

end Grid

/-! ## Accesses -/

namespace Grids

/-- An access to an element, without offset, reads and writes a cell that exists, or it is refused
as out of bounds. An access that happens has a last index. -/
def Guarded (grids : Grids) (no : Int32) (indices : List Int32) (value : Int32) : Prop :=
  (∃ (grid : Grid) (cell : Nat) (hcell : cell < grid.cells.size),
    grids.get? no = some grid ∧ indices ≠ [] ∧ grid.cell no indices 0 = .ok cell ∧
      grids.read no indices 0 = .ok grid.cells[cell] ∧
      grids.write no indices 0 value =
        .ok (grids.put no { grid with cells := grid.cells.set cell value })) ∨
    ∃ fault, grids.read no indices 0 = .error fault ∧
      grids.write no indices 0 value = .error fault ∧ fault.kind = .bounds

/-- Arrays that are complete are accessed inside their backing store. Where there is no axis there
must be an index. -/
theorem guarded_of_complete {grids : Grids} {no : Int32} {indices : List Int32}
    (hcomplete : ∀ grid ∈ grids.get? no, grid.Complete)
    (haxes : ∀ grid ∈ grids.get? no, grid.dims = [] → indices ≠ []) (value : Int32) :
    grids.Guarded no indices value := by
  cases hgrid : grids.get? no with
  | none =>
    have hlookup : grids.lookup no = .error (.undeclared no) := by rw [lookup, hgrid]
    refine .inr ⟨.undeclared no, ?_, ?_, rfl⟩
    · rw [read, hlookup]
      rfl
    · rw [write, hlookup]
      rfl
  | some grid =>
    have hlookup : grids.lookup no = .ok grid := by rw [lookup, hgrid]
    obtain ⟨cell, hcell, hlength, hlt⟩ | ⟨fault, hfault, hkind⟩ :=
      (hcomplete grid hgrid).cell_lt no indices 0
    · have hne : indices ≠ [] := by
        rintro rfl
        exact haxes grid hgrid (List.eq_nil_of_length_eq_zero hlength.symm) rfl
      refine .inl ⟨grid, cell, hlt, hgrid, hne, hcell, ?_, ?_⟩
      · rw [read, hlookup]
        simp only [bind, Except.bind, hcell, pure, Except.pure, Array.getD_eq_getD_getElem?,
          Array.getElem?_eq_getElem hlt, Option.getD_some]
      · rw [write, hlookup]
        simp only [bind, Except.bind, hcell, pure, Except.pure, Array.setIfInBounds, hlt,
          dif_pos]
    · refine .inr ⟨fault, ?_, ?_, hkind⟩
      · rw [read, hlookup]
        simp only [bind, Except.bind, hfault]
      · rw [write, hlookup]
        simp only [bind, Except.bind, hfault]

/-- The arrays after any number of writes to elements. -/
def Written : Grids → Grids → Prop :=
  Relation.ReflTransGen fun grids next =>
    ∃ no indices value, grids.write no indices 0 value = .ok next

/-- A write to an element leaves complete arrays complete. -/
theorem complete_of_write {grids next : Grids} {no : Int32} {indices : List Int32}
    {offset value : Int32} (hwrite : grids.write no indices offset value = .ok next)
    (h : ∀ no, ∀ grid ∈ grids.get? no, grid.Complete) :
    ∀ no, ∀ grid ∈ next.get? no, grid.Complete := by
  obtain ⟨grid, cell, hgrid, rfl⟩ := write_eq_ok hwrite
  intro other found hfound
  change (grids.table.insert no _).get? other = some found at hfound
  rw [Table.get?_insert] at hfound
  split at hfound
  · obtain rfl := Option.some.inj hfound
    exact (h no grid hgrid).setCell cell value
  · exact h other found hfound

/-- Any number of writes leaves complete arrays complete. -/
theorem Written.complete {grids next : Grids} (hwritten : grids.Written next)
    (h : ∀ no, ∀ grid ∈ grids.get? no, grid.Complete) :
    ∀ no, ∀ grid ∈ next.get? no, grid.Complete := by
  induction hwritten with
  | refl => exact h
  | tail _ hwrite ih =>
    obtain ⟨no, indices, value, hwrite⟩ := hwrite
    exact complete_of_write hwrite ih

end Grids

namespace Machine

/-- **No save file breaks an array.** Every array in a save file that can be read, whatever its
bytes, is complete: no axis is negative, and there are exactly as many cells as the axes ask for, at
most 2²⁴. After going on with the save, and after any writes to elements, every access to an array,
with any indices, reads and writes a cell that exists or is refused as out of bounds. The one
exception is an access without indices to an array without axes: such an array may stand in a save
file, and there is no last index. -/
theorem guarded_of_save {bytes : Bytes} {save : Save} (hread : Save.ofBytes bytes = .ok save) :
    (∀ entry ∈ save.vars.grids, entry.2.Complete) ∧
      ∀ m restored : Machine, m.restore save = .ok restored →
        ∀ grids, restored.store.grids.Written grids → ∀ (no : Int32) (indices : List Int32),
          (∀ grid ∈ grids.get? no, grid.dims = [] → indices ≠ []) →
            ∀ value, grids.Guarded no indices value := by
  have hcomplete : ∀ entry ∈ save.vars.grids, entry.2.Complete := fun entry hentry =>
    ((Save.storable_of_ofBytes hread).grids entry hentry).complete
  refine ⟨hcomplete, fun m restored hrestored grids hwritten no indices haxes value => ?_⟩
  obtain ⟨frames, pc, -, -, rfl⟩ := restore_eq_ok hrestored
  have hrestore : ∀ no, ∀ grid ∈ (save.vars.restore m.store).grids.get? no, grid.Complete :=
    fun no grid hgrid =>
      hcomplete (no, grid) (SavedVariables.mem_grids_of_restore (Table.mem_of_get? hgrid))
  exact Grids.guarded_of_complete (hwritten.complete hrestore no) haxes value

/-- A save at the top of a script, with the given arrays. -/
def saveOfArrays (grids : List (Int32 × Grid)) : Save where
  position := ⟨"", 0, 0⟩
  inText := false
  narrow := false
  frames := []
  vars := { firstLocal := 1, locals := [], overflow := [], grids }
  description := none

/-- A script that does nothing, before it is executed. -/
def idle : Machine :=
  fresh { bytes := (Bytes.ofText "end\n").toArray, encoding := .utf8 }
    { variableSlots := 2, globalBorder := some 1 } .absent

/-- A matrix out of a save file, read in its last row, at an index past the axis, and with an index
too few. -/
theorem guarded_of_save_matrix :
    ∃ restored : Machine,
      Save.ofBytes (saveOfArrays [(3, ⟨[1, 2], #[1, 2, 3, 4, 5, 6]⟩)]).toBytes =
        .ok (saveOfArrays [(3, ⟨[1, 2], #[1, 2, 3, 4, 5, 6]⟩)]) ∧
      idle.restore (saveOfArrays [(3, ⟨[1, 2], #[1, 2, 3, 4, 5, 6]⟩)]) = .ok restored ∧
      restored.store.grids.read 3 [0, 1] 0 = .ok 2 ∧
      restored.store.grids.read 3 [0, 2] 0 = .error (.indexOutOfRange 3 2 1 2) ∧
      restored.store.grids.Guarded 3 [0, 1] 9 ∧ restored.store.grids.Guarded 3 [0, 2] 9 ∧
      restored.store.grids.Guarded 3 [] 9 := by
  have hread : Save.ofBytes (saveOfArrays [(3, ⟨[1, 2], #[1, 2, 3, 4, 5, 6]⟩)]).toBytes =
      .ok (saveOfArrays [(3, ⟨[1, 2], #[1, 2, 3, 4, 5, 6]⟩)]) := by decide +kernel
  obtain ⟨restored, hrestored, hgrids⟩ : ∃ restored : Machine,
      idle.restore (saveOfArrays [(3, ⟨[1, 2], #[1, 2, 3, 4, 5, 6]⟩)]) = .ok restored ∧
        restored.store.grids = ⟨[(3, ⟨[1, 2], #[1, 2, 3, 4, 5, 6]⟩)]⟩ := ⟨_, rfl, rfl⟩
  have hguarded := (guarded_of_save hread).2 idle restored hrestored _ .refl 3
  have haxes : ∀ (indices : List Int32),
      ∀ grid ∈ restored.store.grids.get? 3, grid.dims = [] → indices ≠ [] := by
    intro indices grid hgrid hdims
    rw [hgrids] at hgrid
    cases hgrid
    cases hdims
  refine ⟨restored, hread, hrestored, ?_, ?_, hguarded _ (haxes _) 9,
    hguarded _ (haxes _) 9, hguarded _ (haxes _) 9⟩
  · rw [hgrids]
    rfl
  · rw [hgrids]
    rfl

/-- Save files with an array without axes and with an array of twenty-one axes can be read, although
neither array can be declared. -/
theorem ofBytes_axisCounts :
    Save.ofBytes (saveOfArrays [(5, ⟨[], #[7]⟩)]).toBytes = .ok (saveOfArrays [(5, ⟨[], #[7]⟩)]) ∧
      Grids.declare {} 5 [] = .error (.axisCount 5 0) ∧
      Save.ofBytes (saveOfArrays [(5, ⟨List.replicate 21 0, #[7]⟩)]).toBytes =
        .ok (saveOfArrays [(5, ⟨List.replicate 21 0, #[7]⟩)]) ∧
      Grids.declare {} 5 (List.replicate 21 0) = .error (.axisCount 5 21) := by
  decide +kernel

end Machine

end NovelScript
