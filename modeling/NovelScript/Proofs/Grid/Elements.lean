import NovelScript.Proofs.Grid

/-!
# Elements of arrays

An element of an array is named by an index for each axis. The cells are laid out row by row, with
one more of them to the row than the axis has indices, so different elements have different cells,
and the cell of every element exists. Whatever was declared, written, read and forgotten before, an
element holds what was written to it last since its array was declared.
-/

namespace NovelScript

/-! ## Accesses -/

namespace Grid

/-- An index list with an offset added to the last index. -/
def shiftLast (offset : Int32) : List Int32 → List Int
  | [] => []
  | [last] => [last.toInt + offset.toInt]
  | index :: next :: rest => index.toInt :: shiftLast offset (next :: rest)

private theorem length_shiftLast (offset : Int32) (indices : List Int32) :
    (shiftLast offset indices).length = indices.length := by
  fun_induction shiftLast offset indices with
  | case1 => rfl
  | case2 => rfl
  | case3 index next rest ih => exact congrArg (· + 1) ih

/-- The indices name an element of an array with these axes: there is one for each axis, and it is
at least zero and less than the size of the axis. -/
def Names (dims : List Int32) (element : List Int) : Prop :=
  element.length = dims.length ∧ ∀ entry ∈ element.zip dims, 0 ≤ entry.1 ∧ entry.1 < entry.2.toInt

instance (dims : List Int32) (element : List Int) : Decidable (Names dims element) :=
  inferInstanceAs (Decidable (_ ∧ _))

private theorem names_nil : Names [] [] :=
  ⟨rfl, nofun⟩

private theorem names_cons {dim : Int32} {dims : List Int32} {index : Int} {element : List Int} :
    Names (dim :: dims) (index :: element) ↔
      (0 ≤ index ∧ index < dim.toInt) ∧ Names dims element := by
  simp only [Names, List.length_cons, Nat.add_right_cancel_iff, List.zip_cons_cons,
    List.forall_mem_cons]
  exact and_left_comm

end Grid

/-- An access to an element of an array: an index for each axis, and an offset that is added to the
last one. -/
structure Access where
  /-- The number of the array. -/
  no : Int32
  /-- The indices. -/
  indices : List Int32
  /-- The offset. -/
  offset : Int32

namespace Access

/-- The indices of the element. -/
def element (access : Access) : List Int :=
  Grid.shiftLast access.offset access.indices

/-- Reads the element. -/
def read (access : Access) (grids : Grids) : Except Fault Int32 :=
  grids.read access.no access.indices access.offset

/-- Writes the element. -/
def write (access : Access) (grids : Grids) (value : Int32) : Except Fault Grids :=
  grids.write access.no access.indices access.offset value

end Access

/-! ## Cells -/

namespace Grid

/-- The number of the cell of an element, counting on from cell `flat` of the axes before. -/
def cellOf (flat : Nat) : (dims : List Int32) → (element : List Int) → Nat
  | dim :: dims, index :: element =>
    cellOf (flat * (dim.toInt.toNat + 1) + index.toNat) dims element
  | _, _ => flat

/-- One step of the way to a cell. -/
theorem step_eq_ok_iff {dim : Int32} {index : Int} {fault : Fault} {rest : Except Fault Nat}
    {cell : Nat} :
    (if index < 0 ∨ dim.toInt ≤ index then .error fault else rest) = .ok cell ↔
      (0 ≤ index ∧ index < dim.toInt) ∧ rest = .ok cell := by
  split
  · next hout =>
    constructor
    · nofun
    · rintro ⟨hin, -⟩
      omega
  · next hin => exact ⟨fun hrest => ⟨by omega, hrest⟩, fun h => h.2⟩

/-- There is a cell exactly for the elements. -/
theorem cellFrom_eq_ok_iff {no offset : Int32} {indices dims : List Int32} {axis flat cell : Nat}
    (hlength : indices.length = dims.length) :
    cellFrom no offset.toInt axis flat indices dims = .ok cell ↔
      Names dims (shiftLast offset indices) ∧
        cellOf flat dims (shiftLast offset indices) = cell := by
  induction indices generalizing axis flat dims with
  | nil =>
    obtain rfl := List.eq_nil_of_length_eq_zero hlength.symm
    show (.ok flat : Except Fault Nat) = .ok cell ↔ Names [] [] ∧ flat = cell
    rw [Except.ok.injEq]
    exact (and_iff_right names_nil).symm
  | cons index indices ih =>
    obtain ⟨dim, dims, rfl⟩ := List.exists_cons_of_length_eq_add_one hlength.symm
    cases indices with
    | nil =>
      -- The offset is added to the last index only.
      obtain rfl := List.eq_nil_of_length_eq_zero (Nat.succ.inj hlength).symm
      rw [cellFrom, shiftLast, names_cons, cellOf]
      simp only [List.isEmpty_nil, if_true]
      rw [step_eq_ok_iff]
      exact (and_congr_right fun _ => ih rfl).trans and_assoc.symm
    | cons next indices =>
      rw [cellFrom, shiftLast, names_cons, cellOf]
      simp only [List.isEmpty_cons, Bool.false_eq_true, if_false]
      rw [step_eq_ok_iff]
      exact (and_congr_right fun _ => ih (Nat.succ.inj hlength)).trans and_assoc.symm

private theorem cell_eq_ok_iff {grid : Grid} {access : Access} {cell : Nat} :
    grid.cell access.no access.indices access.offset = .ok cell ↔
      Names grid.dims access.element ∧ cellOf 0 grid.dims access.element = cell := by
  rw [Grid.cell]
  split
  · next hlength =>
    refine iff_of_false (by rintro ⟨⟩) fun h => hlength ?_
    rw [← length_shiftLast access.offset]
    exact h.1.1
  · next hlength => exact cellFrom_eq_ok_iff (not_not.mp hlength)

/-- A number is split into a multiple of the radix and a rest below it in one way only. -/
theorem radix_inj {radix high high' low low' : Nat} (hlow : low < radix) (hlow' : low' < radix)
    (h : high * radix + low = high' * radix + low') : high = high' ∧ low = low' := by
  have hpos : 0 < radix := by omega
  have hhigh : high = high' := by
    have hdiv := congrArg (· / radix) h
    simpa only [Nat.mul_comm _ radix, Nat.mul_add_div hpos, Nat.div_eq_of_lt hlow,
      Nat.div_eq_of_lt hlow', Nat.add_zero] using hdiv
  subst hhigh
  exact ⟨rfl, Nat.add_left_cancel h⟩

/-- Different elements have different cells. -/
theorem eq_of_cellOf_eq {flat flat' : Nat} {dims : List Int32} {element element' : List Int}
    (helement : Names dims element) (helement' : Names dims element')
    (h : cellOf flat dims element = cellOf flat' dims element') :
    flat = flat' ∧ element = element' := by
  induction dims generalizing flat flat' element element' with
  | nil =>
    obtain rfl := List.eq_nil_of_length_eq_zero helement.1
    obtain rfl := List.eq_nil_of_length_eq_zero helement'.1
    exact ⟨h, rfl⟩
  | cons dim dims ih =>
    obtain ⟨index, element, rfl⟩ := List.exists_cons_of_length_eq_add_one helement.1
    obtain ⟨index', element', rfl⟩ := List.exists_cons_of_length_eq_add_one helement'.1
    obtain ⟨⟨hlow, hhigh⟩, hrest⟩ := names_cons.mp helement
    obtain ⟨⟨hlow', hhigh'⟩, hrest'⟩ := names_cons.mp helement'
    rw [cellOf, cellOf] at h
    obtain ⟨hflat, rfl⟩ := ih hrest hrest' h
    obtain ⟨rfl, hindex⟩ := radix_inj (by omega) (by omega) hflat
    have hsame : index = index' := by omega
    exact ⟨rfl, by rw [hsame]⟩

/-- The cell of an element is one of those that the axes make of the cells counted before. -/
theorem cellOf_lt {dims : List Int32} {element : List Int} {flat bound : Nat}
    (h : Names dims element) (hflat : flat < bound) : cellOf flat dims element < bound * volume dims := by
  induction dims generalizing flat bound element with
  | nil =>
    obtain rfl := List.eq_nil_of_length_eq_zero h.1
    rwa [volume_nil, Nat.mul_one]
  | cons dim dims ih =>
    obtain ⟨index, element, rfl⟩ := List.exists_cons_of_length_eq_add_one h.1
    obtain ⟨⟨hlow, hhigh⟩, hrest⟩ := names_cons.mp h
    rw [cellOf, volume_cons, ← Nat.mul_assoc]
    exact ih hrest (radix_lt hflat (by omega))

private theorem Complete.cellOf_lt_size {grid : Grid} (h : grid.Complete) {element : List Int}
    (helement : Names grid.dims element) : cellOf 0 grid.dims element < grid.cells.size := by
  have hlt := cellOf_lt helement Nat.zero_lt_one
  rwa [Nat.one_mul, ← h.cells] at hlt

end Grid

/-! ## Declarations -/

namespace Grid

/-- What a declaration asks of the axes. -/
structure Declarable (dims : List Int32) : Prop where
  /-- There is at least one. -/
  least : 1 ≤ dims.length
  /-- There are at most twenty. -/
  most : dims.length ≤ 20
  /-- None of them is negative. -/
  nonneg : ∀ dim ∈ dims, 0 ≤ dim
  /-- There are at most 2²⁴ cells. -/
  small : volume dims ≤ 16777216

instance (dims : List Int32) : Decidable (Declarable dims) :=
  decidable_of_iff (1 ≤ dims.length ∧ dims.length ≤ 20 ∧ dims.all (0 ≤ ·) = true ∧
      volume dims ≤ 16777216)
    ⟨fun ⟨least, most, nonneg, small⟩ => ⟨least, most, by simpa using nonneg, small⟩,
      fun ⟨least, most, nonneg, small⟩ => ⟨least, most, by simpa using nonneg, small⟩⟩

private theorem volume_pos (dims : List Int32) : 0 < volume dims := by
  induction dims with
  | nil => exact Nat.zero_lt_one
  | cons dim dims ih =>
    rw [volume_cons]
    exact Nat.mul_pos (Nat.succ_pos _) ih

/-- Cells are counted as long as their number stays below 2⁶⁴. -/
theorem foldlM_of_lt {dims : List Int32} (hdims : ∀ dim ∈ dims, 0 ≤ dim) {count : Nat}
    (h : count * volume dims < UInt64.size) :
    dims.foldlM
      (fun count d =>
        if d < 0 then none
        else
          let product := count * (d.toInt.toNat + 1)
          if product < UInt64.size then some product else none) count =
        some (count * volume dims) := by
  induction dims generalizing count with
  | nil => rw [volume_nil, Nat.mul_one]; rfl
  | cons dim dims ih =>
    obtain ⟨hdim, hrest⟩ := List.forall_mem_cons.mp hdims
    rw [volume_cons, ← Nat.mul_assoc] at h
    have hproduct : count * (dim.toInt.toNat + 1) < UInt64.size :=
      Nat.lt_of_le_of_lt (Nat.le_mul_of_pos_right _ (volume_pos dims)) h
    rw [List.foldlM_cons, if_neg (Int32.not_lt.mpr hdim)]
    dsimp only
    rw [if_pos hproduct, volume_cons, ← Nat.mul_assoc]
    exact ih hrest h

/-- There is room for the cells of axes exactly if there are at most 2²⁴ of them, also where their
number is too large to be counted. -/
theorem filter_cellCount? {dims : List Int32} (hdims : ∀ dim ∈ dims, 0 ≤ dim) :
    (cellCount? dims).filter (· ≤ maxCells) =
      if volume dims ≤ 16777216 then some (volume dims) else none := by
  have hmax : maxCells = 16777216 := rfl
  have hsize : UInt64.size = 2 ^ 64 := rfl
  split
  · next hsmall =>
    have hcount : cellCount? dims = some (volume dims) := by
      have hfold := foldlM_of_lt hdims (show 1 * volume dims < UInt64.size by omega)
      rwa [Nat.one_mul] at hfold
    rw [hcount, Option.filter_some, if_pos (by simpa [hmax] using hsmall)]
  · next hlarge =>
    rw [Option.filter_eq_none_iff]
    intro count hcount hle
    rw [eq_volume_of_cellCount? hcount] at hle
    simp only [decide_eq_true_eq] at hle
    omega

end Grid

namespace Grids

variable {grids next : Grids} {no : Int32} {dims : List Int32}

private theorem axisCount_iff (dims : List Int32) :
    (dims.isEmpty || decide (Grid.maxAxes < dims.length)) = true ↔
      ¬ (1 ≤ dims.length ∧ dims.length ≤ 20) := by
  have hmax : Grid.maxAxes = 20 := rfl
  simp only [Bool.or_eq_true, List.isEmpty_iff_length_eq_zero, decide_eq_true_eq]
  omega

private theorem isDeclared_iff : grids.isDeclared no = true ↔ grids.get? no ≠ none := by
  rw [isDeclared, Option.isSome_iff_ne_none]

/-- A declaration succeeds exactly for a number that is not declared and for axes that can be. -/
theorem declare_eq_ok_iff : grids.declare no dims = .ok next ↔
    (grids.get? no = none ∧ Grid.Declarable dims) ∧
      grids.put no (Grid.zeros dims (Grid.volume dims)) = next := by
  rw [declare]
  split
  · next haxes =>
    refine iff_of_false (by rintro ⟨⟩) ?_
    rintro ⟨⟨-, hdims⟩, -⟩
    exact (axisCount_iff dims).mp haxes ⟨hdims.least, hdims.most⟩
  · next haxes =>
    obtain ⟨hleast, hmost⟩ := not_not.mp ((axisCount_iff dims).not.mp haxes)
    split
    · next dim hfound =>
      refine iff_of_false (by rintro ⟨⟩) ?_
      rintro ⟨⟨-, hdims⟩, -⟩
      have hnegative : dim < 0 := by simpa using List.find?_some hfound
      exact Int32.not_lt.mpr (hdims.nonneg dim (List.mem_of_find?_eq_some hfound)) hnegative
    · next hsigns =>
      have hnonneg : ∀ dim ∈ dims, 0 ≤ dim := fun dim hdim =>
        Int32.not_lt.mp (by simpa using List.find?_eq_none.mp hsigns dim hdim)
      split
      · next hdeclared =>
        refine iff_of_false (by rintro ⟨⟩) ?_
        rintro ⟨⟨hnone, -⟩, -⟩
        exact isDeclared_iff.mp hdeclared hnone
      · next hundeclared =>
        have hnone : grids.get? no = none := not_not.mp (isDeclared_iff.not.mp hundeclared)
        rw [Grid.filter_cellCount? hnonneg]
        by_cases hsmall : Grid.volume dims ≤ 16777216
        · have hdims : Grid.Declarable dims := ⟨hleast, hmost, hnonneg, hsmall⟩
          rw [if_pos hsmall]
          simp only [Except.ok.injEq]
          exact (and_iff_right ⟨hnone, hdims⟩).symm
        · rw [if_neg hsmall]
          refine iff_of_false (by rintro ⟨⟩) ?_
          rintro ⟨⟨-, hdims⟩, -⟩
          exact hsmall hdims.small

end Grids

namespace Grid

/-- A declared array is complete. -/
theorem Declarable.complete {dims : List Int32} (h : Declarable dims) :
    (zeros dims (volume dims)).Complete where
  nonneg := h.nonneg
  cells := Array.size_replicate
  small := by
    rw [zeros, Array.size_replicate]
    exact h.small

end Grid

/-! ## Reading and writing -/

namespace Access

variable {grids next : Grids} {access : Access} {value : Int32}

/-- An access reads from the array with its number, if there is one. -/
theorem read_eq (access : Access) (grids : Grids) : access.read grids =
    match grids.get? access.no with
    | none => .error (.undeclared access.no)
    | some grid =>
      (grid.cell access.no access.indices access.offset).map fun cell => grid.cells.getD cell 0 := by
  rw [read, Grids.read, Grids.lookup]
  cases grids.get? access.no with
  | none => rfl
  | some grid =>
    simp only [bind, Except.bind]
    cases grid.cell access.no access.indices access.offset <;> rfl

/-- An element is read from its cell. -/
theorem read_eq_ok_iff : access.read grids = .ok value ↔
    ∃ grid, grids.get? access.no = some grid ∧ Grid.Names grid.dims access.element ∧
      grid.cells.getD (Grid.cellOf 0 grid.dims access.element) 0 = value := by
  rw [read_eq]
  cases grids.get? access.no with
  | none => exact iff_of_false nofun fun ⟨_, hgrid, _⟩ => Option.some_ne_none _ hgrid.symm
  | some grid =>
    simp only [Option.some.injEq, exists_eq_left']
    cases hcell : grid.cell access.no access.indices access.offset with
    | error fault =>
      refine iff_of_false nofun fun ⟨hnames, _⟩ => ?_
      rw [Grid.cell_eq_ok_iff.mpr ⟨hnames, rfl⟩] at hcell
      cases hcell
    | ok cell =>
      obtain ⟨hnames, rfl⟩ := Grid.cell_eq_ok_iff.mp hcell
      simp only [Except.map, Except.ok.injEq]
      exact (and_iff_right hnames).symm

/-- An access writes to the array with its number, if there is one. -/
theorem write_eq (access : Access) (grids : Grids) (value : Int32) : access.write grids value =
    match grids.get? access.no with
    | none => .error (.undeclared access.no)
    | some grid =>
      (grid.cell access.no access.indices access.offset).map fun cell =>
        grids.put access.no { grid with cells := grid.cells.setIfInBounds cell value } := by
  rw [write, Grids.write, Grids.lookup]
  cases grids.get? access.no with
  | none => rfl
  | some grid =>
    simp only [bind, Except.bind]
    cases grid.cell access.no access.indices access.offset <;> rfl

/-- An element is written to its cell. -/
theorem write_eq_ok_iff : access.write grids value = .ok next ↔
    ∃ grid, grids.get? access.no = some grid ∧ Grid.Names grid.dims access.element ∧
      grids.put access.no { grid with
        cells := grid.cells.setIfInBounds (Grid.cellOf 0 grid.dims access.element) value } =
          next := by
  rw [write_eq]
  cases grids.get? access.no with
  | none => exact iff_of_false nofun fun ⟨_, hgrid, _⟩ => Option.some_ne_none _ hgrid.symm
  | some grid =>
    simp only [Option.some.injEq, exists_eq_left']
    cases hcell : grid.cell access.no access.indices access.offset with
    | error fault =>
      refine iff_of_false nofun fun ⟨hnames, _⟩ => ?_
      rw [Grid.cell_eq_ok_iff.mpr ⟨hnames, rfl⟩] at hcell
      cases hcell
    | ok cell =>
      obtain ⟨hnames, rfl⟩ := Grid.cell_eq_ok_iff.mp hcell
      simp only [Except.map, Except.ok.injEq]
      exact (and_iff_right hnames).symm

end Access

/-! ## Histories -/

namespace Grids

/-- One operation on the declared arrays. -/
inductive Operation where
  /-- Declares an array of zeros. -/
  | declare (no : Int32) (dims : List Int32)
  /-- Writes an element. -/
  | write (access : Access) (value : Int32)
  /-- Reads an element. -/
  | read (access : Access)
  /-- Forgets all arrays. -/
  | clear

/-- What an operation makes of the arrays, unless it fails. -/
def Operation.apply (grids : Grids) : Operation → Except Fault Grids
  | .declare no dims => grids.declare no dims
  | .write access value => access.write grids value
  | .read access => do
    let _ ← access.read grids
    return grids
  | .clear => .ok {}

/-- The arrays after an operation. One that fails changes nothing. -/
def perform (grids : Grids) (operation : Operation) : Grids :=
  (operation.apply grids).toOption.getD grids

/-- The arrays after all operations of a history, the latest of which comes first. -/
def after : List Operation → Grids
  | [] => {}
  | operation :: before => (after before).perform operation

/-- The axes of an array after a history, if it is declared. -/
def axesAfter (no : Int32) : List Operation → Option (List Int32)
  | [] => none
  | .declare no' dims :: before =>
    match axesAfter no before with
    | some declared => some declared
    | none => if no' = no ∧ Grid.Declarable dims then some dims else none
  | .write _ _ :: before => axesAfter no before
  | .read _ :: before => axesAfter no before
  | .clear :: _ => none

/-- What was written last to an element since its array was declared, and zero if nothing was. -/
def valueAfter (no : Int32) (element : List Int) : List Operation → Int32
  | [] => 0
  | .declare no' _ :: before =>
    if no' = no ∧ axesAfter no before = none then 0 else valueAfter no element before
  | .write access value :: before =>
    if access.no = no ∧ access.element = element then value else valueAfter no element before
  | .read _ :: before => valueAfter no element before
  | .clear :: _ => 0

/-- An array is what a history made of it. -/
structure Shows (history : List Operation) (no : Int32) (grid : Grid) : Prop where
  /-- It has the axes that were declared. -/
  axes : axesAfter no history = some grid.dims
  /-- They were admitted. -/
  declarable : Grid.Declarable grid.dims
  /-- It has all cells. -/
  complete : grid.Complete
  /-- Each element has the value that was written last. -/
  value : ∀ element, Grid.Names grid.dims element →
    grid.cells[Grid.cellOf 0 grid.dims element]? = some (valueAfter no element history)

/-- The arrays are what a history made of them. -/
structure Follow (history : List Operation) (grids : Grids) : Prop where
  /-- What was not declared is not there. -/
  absent : ∀ no, grids.get? no = none → axesAfter no history = none
  /-- What is there is as it was declared and written. -/
  present : ∀ no grid, grids.get? no = some grid → Shows history no grid

private theorem get?_put (grids : Grids) (no other : Int32) (grid : Grid) :
    (grids.put no grid).get? other = if other = no then some grid else grids.get? other :=
  Table.get?_insert grids.table no other grid

section Step

variable {history : List Operation} {grids : Grids} {operation : Operation} {no : Int32}
  {grid : Grid}

/-- An operation that has nothing to do with an array leaves it as it is. -/
theorem Shows.keep (h : Shows history no grid)
    (haxes : axesAfter no (operation :: history) = axesAfter no history)
    (hvalue : ∀ element, Grid.Names grid.dims element →
      valueAfter no element (operation :: history) = valueAfter no element history) :
    Shows (operation :: history) no grid where
  axes := haxes.trans h.axes
  declarable := h.declarable
  complete := h.complete
  value element helement := (h.value element helement).trans (congrArg some (hvalue _ helement).symm)

private theorem Follow.get?_eq_none_iff (h : Follow history grids) :
    grids.get? no = none ↔ axesAfter no history = none := by
  refine ⟨h.absent no, fun hnone => ?_⟩
  cases hgrid : grids.get? no with
  | none => rfl
  | some grid =>
    have haxes := (h.present no grid hgrid).axes
    rw [hnone] at haxes
    cases haxes

/-- An operation that has nothing to do with any array leaves all of them as they are. -/
theorem Follow.keep (h : Follow history grids)
    (haxes : ∀ no, axesAfter no (operation :: history) = axesAfter no history)
    (hvalue : ∀ no grid, grids.get? no = some grid → ∀ element, Grid.Names grid.dims element →
      valueAfter no element (operation :: history) = valueAfter no element history) :
    Follow (operation :: history) grids where
  absent no hnone := (haxes no).trans (h.absent no hnone)
  present no grid hgrid := (h.present no grid hgrid).keep (haxes no) (hvalue no grid hgrid)

/-- An array that was just declared is zero everywhere. -/
theorem shows_declared {dims : List Int32} (hnone : axesAfter no history = none)
    (hdims : Grid.Declarable dims) :
    Shows (.declare no dims :: history) no (Grid.zeros dims (Grid.volume dims)) where
  axes := by
    rw [axesAfter, hnone]
    exact if_pos ⟨rfl, hdims⟩
  declarable := hdims
  complete := hdims.complete
  value element helement := by
    have hlt := hdims.complete.cellOf_lt_size helement
    rw [valueAfter, if_pos ⟨rfl, hnone⟩, Array.getElem?_eq_getElem hlt]
    simp only [Grid.zeros, Array.getElem_replicate]

private theorem Follow.declare (h : Follow history grids) (no : Int32) (dims : List Int32) :
    Follow (.declare no dims :: history) (grids.perform (.declare no dims)) := by
  have haxes : ∀ other, ¬ (other = no ∧ grids.get? no = none ∧ Grid.Declarable dims) →
      axesAfter other (.declare no dims :: history) = axesAfter other history := by
    intro other hother
    rw [axesAfter]
    cases hdeclared : axesAfter other history with
    | some declared => rfl
    | none =>
      refine if_neg fun hno => hother ⟨hno.1.symm, ?_, hno.2⟩
      rw [h.get?_eq_none_iff, hno.1, hdeclared]
  have hvalue : ∀ other grid, grids.get? other = some grid → ∀ element,
      valueAfter other element (.declare no dims :: history) =
        valueAfter other element history := by
    intro other grid hgrid element
    refine if_neg fun hno => ?_
    rw [(h.present other grid hgrid).axes] at hno
    cases hno.2
  rw [perform, Operation.apply]
  cases hdeclare : grids.declare no dims with
  | error fault =>
    refine h.keep (fun other => haxes other fun hother => ?_) fun other grid hgrid element _ =>
      hvalue other grid hgrid element
    rw [declare_eq_ok_iff.mpr ⟨hother.2, rfl⟩] at hdeclare
    cases hdeclare
  | ok next =>
    obtain ⟨⟨hnone, hdims⟩, rfl⟩ := declare_eq_ok_iff.mp hdeclare
    constructor
    · intro other hother
      change (grids.put no _).get? other = none at hother
      rw [get?_put] at hother
      split at hother
      · cases hother
      · next hne => exact (haxes other fun hother => hne hother.1).trans (h.absent other hother)
    · intro other grid hgrid
      change (grids.put no _).get? other = some grid at hgrid
      rw [get?_put] at hgrid
      split at hgrid
      · next hsame =>
        obtain rfl := Option.some.inj hgrid
        rw [hsame]
        exact shows_declared (h.absent no hnone) hdims
      · next hne =>
        exact (h.present other grid hgrid).keep (haxes other fun hother => hne hother.1)
          fun element _ => hvalue other grid hgrid element

private theorem Follow.write (h : Follow history grids) (access : Access) (value : Int32) :
    Follow (.write access value :: history) (grids.perform (.write access value)) := by
  rw [perform, Operation.apply]
  cases hwrite : access.write grids value with
  | error fault =>
    -- No element that is there is written.
    refine h.keep (fun other => rfl) fun no grid hgrid element helement => if_neg ?_
    rintro ⟨rfl, rfl⟩
    rw [Access.write_eq_ok_iff.mpr ⟨grid, hgrid, helement, rfl⟩] at hwrite
    cases hwrite
  | ok next =>
    obtain ⟨grid, hgrid, hnames, rfl⟩ := Access.write_eq_ok_iff.mp hwrite
    have hshows := h.present access.no grid hgrid
    constructor
    · intro other hother
      change (grids.put access.no _).get? other = none at hother
      rw [get?_put] at hother
      split at hother
      · cases hother
      · exact h.absent other hother
    · intro other found hfound
      change (grids.put access.no _).get? other = some found at hfound
      rw [get?_put] at hfound
      split at hfound
      · next hsame =>
        obtain rfl := Option.some.inj hfound
        subst hsame
        refine ⟨hshows.axes, hshows.declarable, hshows.complete.setCell _ value, ?_⟩
        intro element helement
        change Grid.Names grid.dims element at helement
        rw [valueAfter]
        by_cases heq : access.element = element
        · subst heq
          rw [if_pos ⟨rfl, rfl⟩, Array.getElem?_setIfInBounds_self_of_lt]
          exact hshows.complete.cellOf_lt_size hnames
        · have hother : Grid.cellOf 0 grid.dims access.element ≠ Grid.cellOf 0 grid.dims element :=
            fun hcell => heq (Grid.eq_of_cellOf_eq hnames helement hcell).2
          rw [if_neg fun hno => heq hno.2, Array.getElem?_setIfInBounds_ne hother]
          exact hshows.value element helement
      · next hne =>
        refine (h.present other found hfound).keep rfl fun element _ => if_neg fun hno => ?_
        exact hne hno.1.symm

/-- Every operation makes of the arrays what it should. -/
theorem Follow.step (h : Follow history grids) (operation : Operation) :
    Follow (operation :: history) (grids.perform operation) := by
  cases operation with
  | declare no dims => exact h.declare no dims
  | write access value => exact h.write access value
  | read access =>
    have hsame : grids.perform (.read access) = grids := by
      rw [perform, Operation.apply]
      cases access.read grids <;> rfl
    rw [hsame]
    exact h.keep (fun _ => rfl) fun _ _ _ _ _ => rfl
  | clear => exact ⟨fun _ _ => rfl, fun _ _ hgrid => nomatch hgrid⟩

/-- So does every history. -/
theorem follow_after (history : List Operation) : Follow history (after history) := by
  induction history with
  | nil => exact ⟨fun _ _ => rfl, fun _ _ hgrid => nomatch hgrid⟩
  | cons operation before ih => exact ih.step operation

end Step

end Grids

/-! ## Independence -/

namespace Access

open Grids

variable {history : List Operation} {grids next : Grids} {access other : Access} {value : Int32}

/-- The array is declared, and the access names one of its elements. -/
def Meets (history : List Operation) (access : Access) : Prop :=
  ∃ dims, axesAfter access.no history = some dims ∧ Grid.Names dims access.element

private theorem meets_iff (h : Follow history grids) : access.Meets history ↔
    ∃ grid, grids.get? access.no = some grid ∧ Grid.Names grid.dims access.element := by
  constructor
  · rintro ⟨dims, haxes, hnames⟩
    cases hgrid : grids.get? access.no with
    | none =>
      rw [h.absent _ hgrid] at haxes
      cases haxes
    | some grid =>
      rw [(h.present _ grid hgrid).axes, Option.some.injEq] at haxes
      exact ⟨grid, rfl, haxes ▸ hnames⟩
  · rintro ⟨grid, hgrid, hnames⟩
    exact ⟨grid.dims, (h.present _ grid hgrid).axes, hnames⟩

private theorem isError_iff {α : Type} (outcome : Except Fault α) :
    (∃ fault, outcome = .error fault) ↔ ¬ ∃ a, outcome = .ok a := by
  cases outcome <;> simp

private theorem read_isError_iff (h : Follow history grids) :
    (∃ fault, access.read grids = .error fault) ↔ ¬ access.Meets history := by
  rw [isError_iff, meets_iff h]
  simp only [read_eq_ok_iff]
  exact not_congr ⟨fun ⟨_, grid, hgrid, hnames, _⟩ => ⟨grid, hgrid, hnames⟩,
    fun ⟨grid, hgrid, hnames⟩ => ⟨_, grid, hgrid, hnames, rfl⟩⟩

private theorem write_isError_iff (h : Follow history grids) :
    (∃ fault, access.write grids value = .error fault) ↔ ¬ access.Meets history := by
  rw [isError_iff, meets_iff h]
  simp only [write_eq_ok_iff]
  exact not_congr ⟨fun ⟨_, grid, hgrid, hnames, _⟩ => ⟨grid, hgrid, hnames⟩,
    fun ⟨grid, hgrid, hnames⟩ => ⟨_, grid, hgrid, hnames, rfl⟩⟩

/-- The element has a cell in the backing store, and is read from and written to this cell. -/
theorem inside_of_meets (h : Follow history grids) (hmeets : access.Meets history) :
    ∃ (grid : Grid) (cell : Nat) (hcell : cell < grid.cells.size),
      grids.get? access.no = some grid ∧
        grid.cell access.no access.indices access.offset = .ok cell ∧
          access.read grids = .ok grid.cells[cell] ∧
            grid.cells[cell] = valueAfter access.no access.element history ∧
              ∀ value, access.write grids value =
                .ok (grids.put access.no { grid with cells := grid.cells.set cell value }) := by
  obtain ⟨grid, hgrid, hnames⟩ := (meets_iff h).mp hmeets
  have hshows := h.present _ grid hgrid
  have hlt := hshows.complete.cellOf_lt_size hnames
  refine ⟨grid, _, hlt, hgrid, Grid.cell_eq_ok_iff.mpr ⟨hnames, rfl⟩, ?_, ?_, fun value => ?_⟩
  · refine read_eq_ok_iff.mpr ⟨grid, hgrid, hnames, ?_⟩
    rw [Array.getD_eq_getD_getElem?, Array.getElem?_eq_getElem hlt, Option.getD_some]
  · have hvalue := hshows.value _ hnames
    rwa [Array.getElem?_eq_getElem hlt, Option.some.injEq] at hvalue
  · refine write_eq_ok_iff.mpr ⟨grid, hgrid, hnames, ?_⟩
    rw [Array.setIfInBounds, dif_pos hlt]

/-- A written element is read again. -/
theorem read_written (h : Follow history grids) (hwrite : access.write grids value = .ok next) :
    access.read next = .ok value := by
  obtain ⟨grid, hgrid, hnames, rfl⟩ := write_eq_ok_iff.mp hwrite
  have hlt := (h.present _ grid hgrid).complete.cellOf_lt_size hnames
  refine read_eq_ok_iff.mpr ⟨_, (get?_put _ _ _ _).trans (if_pos rfl), hnames, ?_⟩
  rw [Array.getD_eq_getD_getElem?, Array.getElem?_setIfInBounds_self_of_lt hlt, Option.getD_some]

/-- What is read of another element, or of another array, does not change. -/
theorem read_other (hwrite : access.write grids value = .ok next)
    (hother : other.no ≠ access.no ∨ other.element ≠ access.element) :
    other.read next = other.read grids := by
  obtain ⟨grid, hgrid, hnames, rfl⟩ := write_eq_ok_iff.mp hwrite
  rw [read_eq, read_eq, get?_put]
  by_cases hsame : other.no = access.no
  · have helement := hother.resolve_left (not_not.mpr hsame)
    rw [if_pos hsame, hsame, hgrid]
    show (grid.cell access.no other.indices other.offset).map _ = Except.map _ _
    -- Where the cell is does not depend on what the cells hold.
    cases hcell : grid.cell access.no other.indices other.offset with
    | error fault => rfl
    | ok cell =>
      rw [← hsame] at hcell
      obtain ⟨hnames', rfl⟩ := Grid.cell_eq_ok_iff.mp hcell
      have hne : Grid.cellOf 0 grid.dims access.element ≠ Grid.cellOf 0 grid.dims other.element :=
        fun heq => helement (Grid.eq_of_cellOf_eq hnames hnames' heq).2.symm
      simp only [Except.map, Array.getD_eq_getD_getElem?, Array.getElem?_setIfInBounds_ne hne]
  · rw [if_neg hsame]

end Access

namespace Grids

/-- **The elements of arrays are independent.** After any history of operations, whether they failed
or not:

* an access fails exactly if the array is not declared or the indices do not name an element of it;
* an access that does not fail reads and writes a cell that exists, and reads what was written last
  to the element since the array was declared, or else zero;
* two accesses to one array have the same cell exactly if they are to the same element;
* a write changes what is read of its own element and of no other;
* a declaration succeeds exactly for a number that is not declared and for 1 to 20 axes, none of
  them negative, that ask for at most 2²⁴ cells;
* an operation that fails changes nothing. -/
theorem elements_independent (history : List Operation) :
    let grids := after history
    (∀ (access : Access) (value : Int32),
      ((∃ fault, access.read grids = .error fault) ↔ ¬ access.Meets history) ∧
        ((∃ fault, access.write grids value = .error fault) ↔ ¬ access.Meets history)) ∧
    (∀ access : Access, access.Meets history →
      ∃ (grid : Grid) (cell : Nat) (hcell : cell < grid.cells.size),
        grids.get? access.no = some grid ∧
          grid.cell access.no access.indices access.offset = .ok cell ∧
            access.read grids = .ok grid.cells[cell] ∧
              grid.cells[cell] = valueAfter access.no access.element history ∧
                ∀ value, access.write grids value =
                  .ok (grids.put access.no { grid with cells := grid.cells.set cell value })) ∧
    (∀ access other : Access, access.Meets history → other.Meets history →
      ∀ grid, grids.get? access.no = some grid → access.no = other.no →
        (grid.cell access.no access.indices access.offset =
            grid.cell other.no other.indices other.offset ↔ access.element = other.element)) ∧
    (∀ (access : Access) (value : Int32) (next : Grids), access.write grids value = .ok next →
      access.read next = .ok value ∧
        ∀ other : Access, (other.no ≠ access.no ∨ other.element ≠ access.element) →
          other.read next = other.read grids) ∧
    (∀ (no : Int32) (dims : List Int32), (∃ next, grids.declare no dims = .ok next) ↔
      axesAfter no history = none ∧ Grid.Declarable dims) ∧
    (∀ (operation : Operation) (fault : Fault), operation.apply grids = .error fault →
      after (operation :: history) = grids) := by
  intro grids
  have hfollow : Follow history grids := follow_after history
  refine ⟨fun access value => ⟨Access.read_isError_iff hfollow, Access.write_isError_iff hfollow⟩,
    fun access => Access.inside_of_meets hfollow, ?_, fun access value next hwrite => ?_,
    fun no dims => ?_, fun operation fault hfault => ?_⟩
  · intro access other hmeets hother grid hgrid hno
    obtain ⟨found, hfound, hnames⟩ := (Access.meets_iff hfollow).mp hmeets
    obtain ⟨found', hfound', hnames'⟩ := (Access.meets_iff hfollow).mp hother
    rw [hgrid, Option.some.injEq] at hfound
    rw [← hno, hgrid, Option.some.injEq] at hfound'
    subst hfound hfound'
    rw [Grid.cell_eq_ok_iff.mpr ⟨hnames, rfl⟩, Grid.cell_eq_ok_iff.mpr ⟨hnames', rfl⟩,
      Except.ok.injEq]
    exact ⟨fun hcell => (Grid.eq_of_cellOf_eq hnames hnames' hcell).2, fun heq => by rw [heq]⟩
  · exact ⟨Access.read_written hfollow hwrite, fun other => Access.read_other hwrite⟩
  · simp only [declare_eq_ok_iff, ← hfollow.get?_eq_none_iff]
    exact ⟨fun ⟨_, h, _⟩ => h, fun h => ⟨_, h, rfl⟩⟩
  · show (operation.apply grids).toOption.getD grids = grids
    rw [hfault]
    rfl

/-- A matrix is declared and one of its elements written through an offset. A write past an axis and
a second declaration fail. -/
def matrixHistory : List Operation :=
  [.declare 1 [9], .write ⟨1, [3, 0], 0⟩ 5, .write ⟨1, [2, 1], 2⟩ 77,
    .declare 1 [3, 4]]

/-- The element that was written through an offset is read without one, another element is still
zero, there is none past the axis, and other arrays can be declared as far as there is room. -/
theorem elements_independent_matrix :
    Access.read ⟨1, [2, 3], 0⟩ (after matrixHistory) = .ok 77 ∧
      Access.read ⟨1, [2, 2], 0⟩ (after matrixHistory) = .ok 0 ∧
      (∃ fault, Access.read ⟨1, [3, 0], 0⟩ (after matrixHistory) = .error fault) ∧
      (∃ next, (after matrixHistory).declare 2 [0, 7] = .ok next) ∧
      ¬ ∃ next, (after matrixHistory).declare 2 [65535, 65535, 65535, 65535, 65535] = .ok next := by
  obtain ⟨hfails, hinside, -, -, hdeclare, -⟩ := elements_independent matrixHistory
  have hread : ∀ (access : Access) (value : Int32), access.Meets matrixHistory →
      valueAfter access.no access.element matrixHistory = value →
      access.read (after matrixHistory) = .ok value := by
    rintro access value hmeets rfl
    obtain ⟨grid, cell, hcell, -, -, hread, hvalue, -⟩ := hinside access hmeets
    rw [hread, hvalue]
  refine ⟨hread _ 77 ⟨[3, 4], by decide, by decide⟩ (by decide),
    hread _ 0 ⟨[3, 4], by decide, by decide⟩ (by decide),
    (hfails _ 0).1.mpr ?_, (hdeclare 2 [0, 7]).mpr (by decide), fun hlarge => ?_⟩
  · rintro ⟨dims, haxes, hnames⟩
    obtain rfl : [3, 4] = dims := Option.some.inj haxes
    revert hnames
    decide
  · exact absurd ((hdeclare 2 _).mp hlarge).2 (by decide)

end Grids

end NovelScript
