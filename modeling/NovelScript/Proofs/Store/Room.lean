import NovelScript.Proofs.Store.Restore

/-!
# Variables that have room in a save

A save has room for slots whose numbers fit in 31 bits, for arrays as they can be declared, and for
strings without a zero byte. The first two hold of new variables, and edits that fit keep them. The
third is what the local strings of well-formed variables lack, if they lack anything.
-/

namespace NovelScript

/-- Writing a cell leaves the size of an array as it is. -/
theorem Grid.Storable.setCell {grid : Grid} (h : grid.Storable) (cell : Nat) (value : Int32) :
    Grid.Storable { grid with cells := grid.cells.setIfInBounds cell value } where
  axes := h.axes
  nonneg := h.nonneg
  count := by simpa using h.count
  small := by simpa using h.small

namespace Store

variable {store next : Store}

/-! ## Numbers and arrays -/

/-- Changing a slot leaves the arrays alone. -/
theorem grids_modifySlot (store : Store) (n : Nat) (f : Slot → Slot) :
    (store.modifySlot n f).grids = store.grids := by
  unfold modifySlot putSlot
  split <;> rfl

private theorem storable_put {grids : Grids} (h : ∀ entry ∈ grids.table, entry.2.Storable)
    {grid : Grid}
    (hgrid : grid.Storable) (no : Int32) : ∀ entry ∈ (grids.put no grid).table, entry.2.Storable := by
  intro entry hentry
  rcases Table.mem_insert hentry with rfl | hentry
  · exact hgrid
  · exact h entry hentry

/-- An edit that fits leaves all arrays such that they could be declared. -/
theorem storable_grids_apply (h : ∀ entry ∈ store.grids.table, entry.2.Storable) {edit : Edit}
    (hfits : edit.Fits store) (hedit : edit.apply store = .ok next) :
    ∀ entry ∈ next.grids.table, entry.2.Storable := by
  cases edit with
  | setInt n value | setStr n value | restoreSlot n num str =>
    cases hedit
    simpa only [setInt, setStr, restoreSlot, grids_modifySlot] using h
  | setLimit n lower upper =>
    simp only [Edit.apply, setLimit] at hedit
    split at hedit
    · cases hedit
    · cases hedit
      simpa only [grids_modifySlot] using h
  | setBorder border => exact absurd hfits id
  | declare no dims =>
    obtain ⟨grids, hgrids, hnext⟩ := Action.exists_of_bind_eq_ok hedit
    cases hnext
    obtain ⟨grid, hgrid, rfl⟩ := Grids.declare_eq_ok hgrids
    exact storable_put h hgrid no
  | setElement no indices offset value =>
    obtain ⟨grids, hgrids, hnext⟩ := Action.exists_of_bind_eq_ok hedit
    cases hnext
    obtain ⟨grid, cell, hgrid, rfl⟩ := Grids.write_eq_ok hgrids
    have hstorable : grid.Storable := h _ (Table.mem_of_get? hgrid)
    exact storable_put h (hstorable.setCell cell value) no
  | putGrid no grid =>
    cases hedit
    exact storable_put h hfits no
  | clearGrids | reset =>
    cases hedit
    exact List.forall_mem_nil _

/-- So does any number of such edits. -/
theorem storable_grids_edits (h : ∀ entry ∈ store.grids.table, entry.2.Storable)
    (hedits : Edits Edit.Fits store next) : ∀ entry ∈ next.grids.table, entry.2.Storable := by
  induction hedits with
  | refl => exact h
  | tail _ hedit ih =>
    obtain ⟨edit, hfits, hedit⟩ := hedit
    exact storable_grids_apply ih hfits hedit

/-- A save has room for the numbers of all local slots and for all arrays. -/
structure NumbersFit (store : Store) : Prop where
  /-- Slots above the fixed ones can be named. -/
  slots : ∀ entry ∈ store.overflow, store.Nameable entry.1
  /-- Arrays have as many cells as their axes ask for. -/
  grids : ∀ entry ∈ store.grids.table, entry.2.Storable

/-- The numbers of a blank store fit. -/
theorem numbersFit_blank (fixedSlots border : Nat) : (blank fixedSlots border).NumbersFit :=
  ⟨List.forall_mem_nil _, List.forall_mem_nil _⟩

namespace NumbersFit

variable (h : store.NumbersFit)
include h

private theorem putSlot {n : Nat} (hn : store.Nameable n) (slot : Slot) :
    (store.putSlot n slot).NumbersFit := by
  unfold Store.putSlot
  split
  · exact ⟨h.slots, h.grids⟩
  · refine ⟨fun entry hentry => ?_, h.grids⟩
    rcases Table.mem_insert hentry with rfl | hentry
    · exact hn
    · exact h.slots entry hentry

private theorem reset : store.reset.NumbersFit := by
  refine ⟨fun entry hentry => ?_, List.forall_mem_nil _⟩
  obtain ⟨⟨n, slot⟩, hmem, rfl⟩ := List.mem_map.mp (List.mem_filter.mp hentry).1
  exact h.slots (n, slot) hmem

/-- An edit that fits brings in nothing that a save has no room for. -/
theorem apply {edit : Edit} (hfits : edit.Fits store) (hedit : edit.apply store = .ok next) :
    next.NumbersFit := by
  refine ⟨?_, storable_grids_apply h.grids hfits hedit⟩
  cases edit with
  | setInt n value | setStr n value | restoreSlot n num str =>
    cases hedit
    exact (h.putSlot hfits _).slots
  | setLimit n lower upper =>
    simp only [Edit.apply, setLimit] at hedit
    split at hedit
    · cases hedit
    · cases hedit
      exact (h.putSlot hfits _).slots
  | setBorder border => exact absurd hfits id
  | declare no dims | setElement no indices offset value =>
    obtain ⟨grids, -, hnext⟩ := Action.exists_of_bind_eq_ok hedit
    cases hnext
    exact h.slots
  | putGrid no grid | clearGrids =>
    cases hedit
    exact h.slots
  | reset =>
    cases hedit
    exact h.reset.slots

/-- Edits that fit keep the numbers fitting. -/
theorem edits (hedits : Edits Edit.Fits store next) : next.NumbersFit := by
  induction hedits with
  | refl => exact h
  | tail _ hedit ih =>
    obtain ⟨edit, hfits, hedit⟩ := hedit
    exact ih.apply hfits hedit

end NumbersFit

/-! ## Counts -/

/-- A save has room for the numbers of local slots and of arrays. -/
structure CountsFit (store : Store) : Prop where
  /-- The number of the first local slot, or of all fixed slots if none of them is local. -/
  firstLocal : min store.border store.fixed.size < 2 ^ 31
  /-- Fixed slots that are local. -/
  locals : store.fixed.size - store.border < 2 ^ 31
  /-- Local slots above the fixed ones. -/
  overflow : store.overflow.countP (fun entry => store.border ≤ entry.1) < 2 ^ 31
  /-- Arrays. -/
  grids : store.grids.table.length < 2 ^ 31

/-- The counts fit if all four counts of the saved variables do. -/
theorem countsFit_iff : store.CountsFit ↔
    (SavedVariables.ofStore store).firstLocal < 2 ^ 31 ∧
      (SavedVariables.ofStore store).locals.length < 2 ^ 31 ∧
      (SavedVariables.ofStore store).overflow.length < 2 ^ 31 ∧
      (SavedVariables.ofStore store).grids.length < 2 ^ 31 := by
  have hlocals : (SavedVariables.ofStore store).locals.length =
      store.fixed.size - store.border := by
    have hsum := SavedVariables.firstLocal_add_length store
    have hfirst : (SavedVariables.ofStore store).firstLocal =
      min store.border store.fixed.size := rfl
    omega
  have hoverflow : (SavedVariables.ofStore store).overflow.length =
      store.overflow.countP fun entry => store.border ≤ entry.1 := by
    simp [SavedVariables.ofStore, isGlobal, List.countP_eq_length_filter, ← decide_not]
  rw [hlocals, hoverflow]
  constructor
  · intro h
    exact ⟨h.firstLocal, h.locals, h.overflow, h.grids⟩
  · rintro ⟨hfirst, hlocal, hfurther, hgrids⟩
    exact ⟨hfirst, hlocal, hfurther, hgrids⟩

/-! ## Strings -/

/-- No string of a local slot has a zero byte. -/
def ZeroFree (store : Store) : Prop :=
  ∀ n, store.border ≤ n → 0 ∉ store.str n

end Store

/-- A slot can be stored if its string holds no zero byte. -/
theorem Slot.storable_toSaved {slot : Slot} (h : slot.str ≠ some []) :
    slot.toSaved.Storable ↔ 0 ∉ slot.str.getD [] := by
  obtain ⟨num, str, limit⟩ := slot
  cases str with
  | none => simp [toSaved, SavedSlot.Storable]
  | some text =>
    have hsome : text ≠ [] := fun hempty => h (congrArg some hempty)
    simp [toSaved, SavedSlot.Storable, hsome]

namespace Store

variable {store : Store}

/-- A slot above the fixed ones is what a reader sees there. -/
theorem WellFormed.slot_of_mem (h : store.WellFormed) {entry : Nat × Slot}
    (hentry : entry ∈ store.overflow) : store.slot entry.1 = entry.2 := by
  rw [slot, slot?, if_neg (Nat.not_lt.mpr (h.above entry hentry)),
    h.overflow.get?_of_mem hentry]
  rfl

/-- What is saved of the slots has room in a save as far as no string has a zero byte. -/
theorem WellFormed.zeroFree_iff (h : store.WellFormed) : store.ZeroFree ↔
    (∀ slot ∈ (SavedVariables.ofStore store).locals, slot.Storable) ∧
      ∀ entry ∈ (SavedVariables.ofStore store).overflow, entry.2.Storable := by
  constructor
  · intro hzero
    constructor
    · intro saved hsaved
      obtain ⟨n, hlocal, -, rfl⟩ := SavedVariables.mem_locals_ofStore.mp hsaved
      exact (Slot.storable_toSaved (h.strings n)).mpr (hzero n hlocal)
    · intro entry hentry
      obtain ⟨slot, hslot, hlocal, hsaved⟩ := SavedVariables.mem_overflow_ofStore.mp hentry
      have hseen : store.slot entry.1 = slot := h.slot_of_mem hslot
      rw [hsaved, ← hseen]
      exact (Slot.storable_toSaved (h.strings entry.1)).mpr (hzero entry.1 hlocal)
  · rintro ⟨hlocals, hoverflow⟩ n hlocal
    by_cases hfixed : n < store.fixed.size
    · have hstorable := hlocals _ (SavedVariables.mem_locals_ofStore.mpr ⟨n, hlocal, hfixed, rfl⟩)
      exact (Slot.storable_toSaved (h.strings n)).mp hstorable
    · -- Above the fixed slots only those in the table have strings.
      cases hget : store.overflow.get? n with
      | none => simp [str, slot, slot?, hfixed, hget]
      | some slot =>
        have hmem : (n, slot) ∈ store.overflow := Table.mem_of_get? hget
        have hstorable := hoverflow (n, slot.toSaved)
          (SavedVariables.mem_overflow_ofStore.mpr ⟨slot, hmem, hlocal, rfl⟩)
        have hseen : store.slot n = slot := h.slot_of_mem hmem
        rw [← hseen] at hstorable
        exact (Slot.storable_toSaved (h.strings n)).mp hstorable

end Store

end NovelScript
