import NovelScript.Proofs.Store.WellFormed

/-!
# Variables that were saved and put back

What is saved of the variables is split in three: the local slots among the fixed ones, the local
slots above them with their numbers, and the arrays. This file puts the parts together again. Put
back into any variables with the same border, whatever their number of fixed slots, they give the
integers and strings of all local slots and all arrays, and leave global slots and bounds alone.
-/

namespace NovelScript

/-- A slot with its integer and string replaced by saved ones. -/
def SavedSlot.onto (saved : SavedSlot) (slot : Slot) : Slot :=
  { slot with num := saved.num, str := saved.str.filter (!·.isEmpty) }

/-- What is saved of a slot gives its integer and string again. -/
theorem Slot.toSaved_onto {slot : Slot} (h : slot.str ≠ some []) (other : Slot) :
    slot.toSaved.onto other = { other with num := slot.num, str := slot.str } := by
  obtain ⟨num, str, limit⟩ := slot
  have hstr : str.filter (!·.isEmpty) = str := by
    cases str with
    | none => rfl
    | some text =>
      rw [Option.filter_some, if_pos]
      cases text with
      | nil => exact absurd rfl h
      | cons b rest => rfl
  simp only [toSaved, SavedSlot.onto, hstr]

namespace SavedVariables

/-! ## Putting slots back -/

/-- A saved slot replaces a local one and leaves all others alone. -/
theorem slot_restoreLocal (store : Store) (n k : Nat) (saved : SavedSlot) :
    (restoreLocal store n saved).slot k =
      if k = n ∧ store.border ≤ k then saved.onto (store.slot k) else store.slot k := by
  rw [restoreLocal]
  by_cases hglobal : store.isGlobal n = true
  · rw [if_pos hglobal, if_neg]
    rintro ⟨rfl, hk⟩
    exact Nat.not_lt.mpr hk (by simpa [Store.isGlobal] using hglobal)
  · rw [if_neg hglobal, Store.restoreSlot, Store.slot_modifySlot]
    have hlocal : store.border ≤ n := by simpa [Store.isGlobal] using hglobal
    by_cases hk : k = n
    · subst hk
      rw [if_pos rfl, if_pos ⟨rfl, hlocal⟩]
      rfl
    · rw [if_neg hk, if_neg fun h => hk h.1]

/-- Restoring a local variable leaves the border alone. -/
theorem border_restoreLocal (store : Store) (n : Nat) (saved : SavedSlot) :
    (restoreLocal store n saved).border = store.border := by
  simp only [restoreLocal, Store.restoreSlot, Store.modifySlot, Store.putSlot]
  repeat' split
  all_goals rfl

private theorem grids_restoreLocal (store : Store) (n : Nat) (saved : SavedSlot) :
    (restoreLocal store n saved).grids = store.grids := by
  simp only [restoreLocal, Store.restoreSlot, Store.modifySlot, Store.putSlot]
  repeat' split
  all_goals rfl

/-- A slot that may have been saved, over the one that is there. -/
def ontoLocal (store : Store) (k : Nat) (saved? : Option SavedSlot) : Slot :=
  if store.border ≤ k then (saved?.map fun saved => saved.onto (store.slot k)).getD (store.slot k)
  else store.slot k

private theorem ontoLocal_none (store : Store) (k : Nat) :
    ontoLocal store k none = store.slot k := by
  rw [ontoLocal]
  split <;> rfl

/-- Puts saved slots back by their numbers. -/
def restoreAll (entries : Table Nat SavedSlot) (store : Store) : Store :=
  entries.foldl (fun store (n, saved) => restoreLocal store n saved) store

/-- Of the slots that are put back, the last one with a number is found by it. -/
theorem slot_restoreAll (entries : Table Nat SavedSlot) (store : Store) (k : Nat) :
    (restoreAll entries store).slot k = ontoLocal store k (Table.last? entries k) := by
  induction entries generalizing store with
  | nil => exact (ontoLocal_none store k).symm
  | cons entry rest ih =>
    obtain ⟨n, saved⟩ := entry
    have hstep : (restoreAll ((n, saved) :: rest) store).slot k =
        ontoLocal (restoreLocal store n saved) k (Table.last? rest k) := ih _
    rw [hstep, Table.last?_cons, ontoLocal, ontoLocal, border_restoreLocal, slot_restoreLocal]
    by_cases hk : k = n
    · subst hk
      by_cases hlocal : store.border ≤ k
      · cases Table.last? rest k <;> simp [hlocal, SavedSlot.onto]
      · simp [hlocal]
    · simp [hk]

private theorem border_restoreAll (entries : Table Nat SavedSlot) (store : Store) :
    (restoreAll entries store).border = store.border := by
  induction entries generalizing store with
  | nil => rfl
  | cons entry rest ih => exact (ih _).trans (border_restoreLocal _ _ _)

private theorem grids_restoreAll (entries : Table Nat SavedSlot) (store : Store) :
    (restoreAll entries store).grids = store.grids := by
  induction entries generalizing store with
  | nil => rfl
  | cons entry rest ih => exact (ih _).trans (grids_restoreLocal _ _ _)

/-- Slots with their numbers, from `n` on. -/
def numbered : (n : Nat) → List SavedSlot → Table Nat SavedSlot
  | _, [] => []
  | n, saved :: slots => (n, saved) :: numbered (n + 1) slots

private theorem restoreLocals_eq (n : Nat) (slots : List SavedSlot) (store : Store) :
    restoreLocals n slots store = restoreAll (numbered n slots) store := by
  induction slots generalizing n store with
  | nil => rfl
  | cons saved slots ih => exact ih _ _

private theorem mem_numbered {n : Nat} {slots : List SavedSlot} {entry : Nat × SavedSlot}
    (h : entry ∈ numbered n slots) : n ≤ entry.1 ∧ entry.1 < n + slots.length := by
  induction slots generalizing n with
  | nil => cases h
  | cons saved slots ih =>
    rw [List.length_cons]
    rcases List.mem_cons.mp h with rfl | h
    · omega
    · have := ih h
      omega

/-- The slots that are numbered are the slots of the list. -/
theorem slot_mem_of_mem_numbered {n : Nat} {slots : List SavedSlot} {entry : Nat × SavedSlot}
    (h : entry ∈ numbered n slots) : entry.2 ∈ slots := by
  induction slots generalizing n with
  | nil => cases h
  | cons saved slots ih =>
    rcases List.mem_cons.mp h with rfl | h
    · exact List.mem_cons_self
    · exact List.mem_cons_of_mem _ (ih h)

private theorem sorted_numbered (n : Nat) (slots : List SavedSlot) : (numbered n slots).Sorted := by
  induction slots generalizing n with
  | nil => exact List.Pairwise.nil
  | cons saved slots ih =>
    exact List.pairwise_cons.mpr ⟨fun entry hentry => (mem_numbered hentry).1, ih (n + 1)⟩

private theorem get?_numbered {n i : Nat} {slots : List SavedSlot} :
    (numbered n slots).get? (n + i) = slots[i]? := by
  induction slots generalizing n i with
  | nil => rfl
  | cons saved slots ih =>
    rw [numbered, Table.get?_cons]
    cases i with
    | zero => exact if_pos rfl
    | succ i =>
      rw [if_neg (by omega), ← Nat.add_assoc, Nat.add_right_comm, ih]
      rfl

/-! ## Putting back what was saved -/

/-- All saved slots with their numbers. -/
def entries (saved : SavedVariables) : Table Nat SavedSlot :=
  numbered saved.firstLocal saved.locals ++ saved.overflow

/-- Arrays are put back by their numbers. -/
theorem foldl_put (saved : List (Int32 × Grid)) (grids : Grids) :
    saved.foldl (fun grids (no, grid) => grids.put no grid) grids =
      ⟨saved.foldl (fun built (no, grid) => Table.insert no grid built) grids.table⟩ := by
  induction saved generalizing grids with
  | nil => rfl
  | cons entry saved ih => exact ih _

/-- Restoring resets the store, restores each saved variable in turn and then takes over the
arrays. -/
theorem restore_eq (saved : SavedVariables) (store : Store) :
    saved.restore store = { restoreAll saved.entries store.reset with
      grids := saved.grids.foldl (fun grids (no, grid) => grids.put no grid) {} } := by
  have hslots : saved.overflow.foldl (fun store (n, slot) => restoreLocal store n slot)
      (restoreLocals saved.firstLocal saved.locals store.reset) =
        restoreAll saved.entries store.reset := by
    rw [restoreLocals_eq, entries, restoreAll, restoreAll, List.foldl_append]
  have hgrids : (restoreAll saved.entries store.reset).grids = {} := grids_restoreAll _ _
  simp only [restore, hslots, hgrids]

variable {s t : Store}

/-- The saved local variables reach up to the last fixed slot. -/
theorem firstLocal_add_length (s : Store) :
    (ofStore s).firstLocal + (ofStore s).locals.length = s.fixed.size := by
  have hlength : (ofStore s).locals.length = s.fixed.size - min s.border s.fixed.size := by
    simp [ofStore, Store.slotsBetween]
  have hfirst : (ofStore s).firstLocal = min s.border s.fixed.size := rfl
  omega

/-- The local slots above the fixed ones are saved. -/
theorem mem_overflow_ofStore {entry : Nat × SavedSlot} :
    entry ∈ (ofStore s).overflow ↔
      ∃ slot, (entry.1, slot) ∈ s.overflow ∧ s.border ≤ entry.1 ∧ entry.2 = slot.toSaved := by
  constructor
  · intro h
    obtain ⟨⟨n, slot⟩, hmem, rfl⟩ := List.mem_map.mp h
    obtain ⟨hslot, hlocal⟩ := List.mem_filter.mp hmem
    exact ⟨slot, hslot, by simpa [Store.isGlobal] using hlocal, rfl⟩
  · obtain ⟨n, saved⟩ := entry
    rintro ⟨slot, hslot, hlocal, rfl⟩
    refine List.mem_map.mpr ⟨(n, slot), List.mem_filter.mpr ⟨hslot, ?_⟩, rfl⟩
    simpa [Store.isGlobal] using hlocal

/-- So are those among the fixed ones. -/
theorem mem_locals_ofStore {saved : SavedSlot} :
    saved ∈ (ofStore s).locals ↔
      ∃ n, s.border ≤ n ∧ n < s.fixed.size ∧ saved = (s.slot n).toSaved := by
  have hmem : saved ∈ (ofStore s).locals ↔ ∃ i < s.fixed.size - min s.border s.fixed.size,
      (s.slot (min s.border s.fixed.size + i)).toSaved = saved := by
    simp [ofStore, Store.slotsBetween]
  refine hmem.trans ⟨?_, ?_⟩
  · clear hmem
    rintro ⟨i, hi, rfl⟩
    exact ⟨min s.border s.fixed.size + i, by omega, by omega, rfl⟩
  · rintro ⟨n, hlocal, hfixed, rfl⟩
    have hfirst : min s.border s.fixed.size + (n - s.border) = n := by omega
    exact ⟨n - s.border, by omega, by rw [hfirst]⟩

/-- The saved slots are in the order of their numbers. -/
theorem sorted_entries_ofStore (hs : s.WellFormed) : (ofStore s).entries.Sorted := by
  refine List.pairwise_append.mpr ⟨sorted_numbered _ _, ?_, ?_⟩
  · exact List.pairwise_map.mpr (hs.overflow.filter _)
  · intro low hlow high hhigh
    obtain ⟨slot, hslot, -⟩ := mem_overflow_ofStore.mp hhigh
    have habove := hs.above _ hslot
    have hbelow := (mem_numbered hlow).2
    rw [firstLocal_add_length] at hbelow
    exact Nat.lt_of_lt_of_le hbelow habove

/-- Every local slot is saved, as far as it exists. -/
theorem get?_entries_ofStore (hs : s.WellFormed) {k : Nat} (hk : s.border ≤ k) :
    (ofStore s).entries.get? k = (s.slot? k).map Slot.toSaved := by
  have hsplit : (ofStore s).entries.get? k =
      ((numbered (ofStore s).firstLocal (ofStore s).locals).get? k).or
        (Table.get? (ofStore s).overflow k) := List.lookup_append
  have hfirst : (ofStore s).firstLocal = min s.border s.fixed.size := rfl
  rw [hsplit]
  by_cases hfixed : k < s.fixed.size
  · obtain ⟨i, rfl⟩ : ∃ i, k = (ofStore s).firstLocal + i :=
      ⟨k - (ofStore s).firstLocal, by omega⟩
    have hslot : s.slot? ((ofStore s).firstLocal + i) =
        some (s.slot ((ofStore s).firstLocal + i)) := by
      simp [Store.slot, Store.slot?, hfixed]
    have hlocals : (ofStore s).locals[i]? = some (s.slot ((ofStore s).firstLocal + i)).toSaved := by
      have hi : i < s.fixed.size - (ofStore s).firstLocal := by omega
      have hmap : (ofStore s).locals = ((List.range (s.fixed.size - (ofStore s).firstLocal)).map
          fun i => s.slot ((ofStore s).firstLocal + i)).map Slot.toSaved := rfl
      rw [hmap, List.getElem?_map, List.getElem?_map, List.getElem?_range hi]
      rfl
    rw [get?_numbered, hslot, hlocals]
    rfl
  · have hgone : (numbered (ofStore s).firstLocal (ofStore s).locals).get? k = none := by
      refine Table.get?_eq_none fun entry hentry heq => hfixed ?_
      have hbelow := (mem_numbered hentry).2
      rwa [firstLocal_add_length, heq] at hbelow
    have hlocal : s.isGlobal k = false := by simpa [Store.isGlobal] using hk
    have hover : Table.get? (ofStore s).overflow k =
        ((s.overflow.get? k).filter fun _ => !s.isGlobal k).map Slot.toSaved :=
      (Table.get?_map _ (fun _ => Slot.toSaved) k).trans
        (congrArg _ (hs.overflow.get?_filter _ k))
    rw [hgone, hover, hlocal, Store.slot?, if_neg hfixed, Option.none_or]
    cases s.overflow.get? k <;> rfl

/-! ## All variables -/

private theorem slot_restore (hs : s.WellFormed) (t : Store) (k : Nat) :
    ((ofStore s).restore t).slot k = ontoLocal t.reset k ((ofStore s).entries.get? k) := by
  rw [restore_eq, ← (sorted_entries_ofStore hs).last?_eq, ← slot_restoreAll]
  rfl

/-- Local slots without bounds have the integers and strings that were saved. -/
theorem slot_restore_local (hs : s.WellFormed) (ht : t.WellFormed) (hborder : t.border = s.border)
    {k : Nat} (hk : s.border ≤ k) (hfree : (t.slot k).limit = none) :
    ((ofStore s).restore t).slot k = { num := (s.slot k).num, str := (s.slot k).str } := by
  have hclear : t.reset.slot k = {} := by
    rw [Store.slot_reset ht.overflow, if_neg (by omega), Slot.cleared, Slot.bounded, hfree]
  have hlocal : t.reset.border ≤ k := by
    rw [← hborder] at hk
    exact hk
  rw [slot_restore hs, get?_entries_ofStore hs hk, ontoLocal, if_pos hlocal, hclear]
  cases hget : s.slot? k with
  | none => simp [Store.slot, hget]
  | some slot =>
    have hseen : s.slot k = slot := by rw [Store.slot, hget, Option.getD_some]
    have hstr : slot.str ≠ some [] := hseen ▸ hs.strings k
    simp [Slot.toSaved_onto hstr, hseen]

/-- Global slots are left alone. -/
theorem slot_restore_global (hs : s.WellFormed) (ht : t.WellFormed) {k : Nat} (hk : k < t.border) :
    ((ofStore s).restore t).slot k = t.slot k := by
  have hglobal : ¬ t.reset.border ≤ k := Nat.not_le.mpr hk
  rw [slot_restore hs, ontoLocal, if_neg hglobal, Store.slot_reset ht.overflow, if_pos hk]

/-- All bounds are left alone. -/
theorem limit_restore (hs : s.WellFormed) (ht : t.WellFormed) (k : Nat) :
    (((ofStore s).restore t).slot k).limit = (t.slot k).limit := by
  have hreset : (t.reset.slot k).limit = (t.slot k).limit := by
    rw [Store.slot_reset ht.overflow]
    split <;> rfl
  rw [slot_restore hs, ontoLocal, ← hreset]
  split
  · cases (ofStore s).entries.get? k <;> rfl
  · rfl

/-- Arrays put in one after another were there before or were put in. -/
theorem mem_foldl_put {saved : List (Int32 × Grid)} {grids : Grids} {entry : Int32 × Grid}
    (h : entry ∈ (saved.foldl (fun grids (no, grid) => grids.put no grid) grids).table) :
    entry ∈ grids.table ∨ entry ∈ saved := by
  induction saved generalizing grids with
  | nil => exact .inl h
  | cons first saved ih =>
    obtain hput | hmem := ih h
    · obtain rfl | hbefore := Table.mem_insert hput
      · exact .inr List.mem_cons_self
      · exact .inl hbefore
    · exact .inr (List.mem_cons_of_mem _ hmem)

/-- The arrays after putting saved variables back are saved ones. -/
theorem mem_grids_of_restore {saved : SavedVariables} {store : Store} {entry : Int32 × Grid}
    (h : entry ∈ (saved.restore store).grids.table) : entry ∈ saved.grids := by
  rw [restore_eq] at h
  exact (mem_foldl_put h).resolve_left List.not_mem_nil

/-- The arrays are those that were saved. -/
theorem grids_restore (hs : s.WellFormed) (t : Store) :
    ((ofStore s).restore t).grids = s.grids := by
  rw [restore_eq]
  show s.grids.table.foldl _ _ = _
  rw [foldl_put, show s.grids.table.foldl _ [] = [] ++ s.grids.table from Table.foldl_insert hs.grids]
  rfl

/-- Restoring leaves the border alone. -/
theorem border_restore (saved : SavedVariables) (t : Store) :
    (saved.restore t).border = t.border := by
  rw [restore_eq]
  exact border_restoreAll _ _

/-! ## Putting back whatever is listed -/

/-- The slot that is saved with a number: of several the last one, and one above the fixed slots
rather than a fixed one. -/
def slot? (saved : SavedVariables) (n : Nat) : Option SavedSlot :=
  Table.last? saved.entries n

/-- The array that is saved with a number, of several the last one. -/
def grid? (saved : SavedVariables) (no : Int32) : Option Grid :=
  Table.last? saved.grids no

section Listed

variable (saved : SavedVariables) {k : Nat}

private theorem slot_restore_eq_ontoLocal (t : Store) (k : Nat) :
    (saved.restore t).slot k = ontoLocal t.reset k (saved.slot? k) := by
  rw [restore_eq, slot?, ← slot_restoreAll]
  rfl

/-- Global slots are left alone, also if they are listed. -/
theorem slot_restore_of_lt (ht : t.WellFormed) (hk : k < t.border) :
    (saved.restore t).slot k = t.slot k := by
  have hglobal : ¬ t.reset.border ≤ k := Nat.not_le.mpr hk
  rw [slot_restore_eq_ontoLocal, ontoLocal, if_neg hglobal, Store.slot_reset ht.overflow, if_pos hk]

/-- A local slot that is not listed is cleared. -/
theorem slot_restore_unlisted (ht : t.WellFormed) (hk : t.border ≤ k)
    (hnone : saved.slot? k = none) : (saved.restore t).slot k = (t.slot k).cleared := by
  rw [slot_restore_eq_ontoLocal, hnone, ontoLocal_none, Store.slot_reset ht.overflow,
    if_neg (Nat.not_lt.mpr hk)]

/-- A local slot that is listed has the integer and the string that are saved, and its bounds. -/
theorem slot_restore_listed (ht : t.WellFormed) (hk : t.border ≤ k) {slot : SavedSlot}
    (hslot : saved.slot? k = some slot) (hstr : slot.str ≠ some []) :
    (saved.restore t).slot k =
      { num := slot.num, str := slot.str, limit := (t.slot k).limit } := by
  have hlocal : t.reset.border ≤ k := hk
  have hkept : slot.str.filter (!·.isEmpty) = slot.str := by
    cases hs : slot.str with
    | none => rfl
    | some text => rw [Option.filter_some, if_pos (by simpa [hs] using hstr)]
  rw [slot_restore_eq_ontoLocal, hslot, ontoLocal, if_pos hlocal, Store.slot_reset ht.overflow,
    if_neg (Nat.not_lt.mpr hk)]
  simp [SavedSlot.onto, Slot.cleared, hkept]

/-- The arrays are those that are listed. -/
theorem get?_grids_restore (t : Store) (no : Int32) :
    (saved.restore t).grids.get? no = saved.grid? no := by
  rw [restore_eq, foldl_put, Grids.get?, Table.get?_foldl_insert]
  exact Option.or_none

end Listed

end SavedVariables

end NovelScript
