import NovelScript.Proofs.Save.RoundTrip
import NovelScript.Proofs.Store.Memory
import NovelScript.Proofs.Store.Reset
import NovelScript.Proofs.Store.Restore
import NovelScript.Proofs.Store.Room

/-!
# Global variables in their file

The file of the global variables holds an integer and a string for each of them, one after another,
and tells neither how many there are nor where a slot begins. Other variables, with another border
and another fixed table, read it all the same: every slot that is global in both gets back its
integer and its string, and nothing else changes.
-/

namespace NovelScript.Store

/-- Operations on new variables lead to these. -/
def Made (store : Store) : Prop :=
  ∃ fixedSlots border operations, ((blank fixedSlots border).performAll operations).2 = store

private theorem Made.wellFormed {store : Store} (h : store.Made) : store.WellFormed := by
  obtain ⟨fixedSlots, border, operations, rfl⟩ := h
  exact ((holds_blank fixedSlots border).performAll operations).2.wellFormed

/-! ## What one slot leaves alone -/

/-- Two states of variables differ at most in the integers and strings of slots. -/
structure SameOutline (store next : Store) : Prop where
  /-- The border is the same. -/
  border : next.border = store.border
  /-- So is the size of the fixed table. -/
  size : next.fixed.size = store.fixed.size
  /-- So are the arrays. -/
  grids : next.grids = store.grids
  /-- So are the bounds of every slot. -/
  limit : ∀ n, (next.slot n).limit = (store.slot n).limit

private theorem SameOutline.trans {first second third : Store} (h : SameOutline first second)
    (h' : SameOutline second third) : SameOutline first third where
  border := h'.border.trans h.border
  size := h'.size.trans h.size
  grids := h'.grids.trans h.grids
  limit n := (h'.limit n).trans (h.limit n)

/-- Other slots are left alone, also those that do not exist. -/
theorem slot?_putSlot_of_ne (store : Store) {n k : Nat} (h : k ≠ n) (slot : Slot) :
    (store.putSlot n slot).slot? k = store.slot? k := by
  unfold putSlot
  by_cases hn : n < store.fixed.size
  · rw [if_pos hn]
    by_cases hk : k < store.fixed.size
    · simp [slot?, hk, Ne.symm h]
    · simp [slot?, hk]
  · rw [if_neg hn]
    by_cases hk : k < store.fixed.size
    · simp [slot?, hk]
    · simp only [slot?, if_neg hk, Table.get?_insert, if_neg h]

private theorem sameOutline_restoreSlot (store : Store) (n : Nat) (num : Int32)
    (str : Option Bytes) : SameOutline store (store.restoreSlot n num str) where
  border := border_restoreSlot store n num str
  size := size_modifySlot store n _
  grids := grids_modifySlot store n _
  limit k := by
    rw [restoreSlot, slot_modifySlot]
    split
    · next hk => rw [hk]
    · rfl

/-! ## Slots in a row -/

/-- Puts slots back one after another, from number `n` on. -/
def restoreSlots (n : Nat) : List SavedSlot → Store → Store
  | [], store => store
  | saved :: slots, store =>
    restoreSlots (n + 1) slots (store.restoreSlot n saved.num saved.str)

private theorem sameOutline_restoreSlots (n : Nat) (slots : List SavedSlot) (store : Store) :
    SameOutline store (restoreSlots n slots store) := by
  induction slots generalizing n store with
  | nil => exact ⟨rfl, rfl, rfl, fun _ => rfl⟩
  | cons saved slots ih => exact (sameOutline_restoreSlot store n _ _).trans (ih (n + 1) _)

/-- Slots before and after those that are put back are left alone. -/
theorem slot?_restoreSlots {n k : Nat} {slots : List SavedSlot} (store : Store)
    (h : k < n ∨ n + slots.length ≤ k) : (restoreSlots n slots store).slot? k = store.slot? k := by
  induction slots generalizing n store with
  | nil => rfl
  | cons saved slots ih =>
    rw [List.length_cons] at h
    rw [restoreSlots, ih _ (by omega)]
    exact slot?_putSlot_of_ne store (by omega) _

/-- Each slot in the row gets the integer and the string that were saved for it. -/
theorem slot_restoreSlots {n i : Nat} {slots : List SavedSlot} {saved : SavedSlot} (store : Store)
    (h : slots[i]? = some saved) :
    (restoreSlots n slots store).slot (n + i) = saved.onto (store.slot (n + i)) := by
  induction slots generalizing n i store with
  | nil => cases h
  | cons first slots ih =>
    rw [restoreSlots]
    cases i with
    | zero =>
      obtain rfl : first = saved := Option.some.inj h
      have hafter : (restoreSlots (n + 1) slots (store.restoreSlot n first.num first.str)).slot? n =
          (store.restoreSlot n first.num first.str).slot? n := slot?_restoreSlots _ (by omega)
      show ((restoreSlots (n + 1) slots (store.restoreSlot n first.num first.str)).slot? n).getD {} = _
      rw [hafter, ← Store.slot, restoreSlot, slot_modifySlot, if_pos rfl]
      rfl
    | succ i =>
      have hplace : n + (i + 1) = n + 1 + i := by omega
      have hother : (store.restoreSlot n first.num first.str).slot (n + 1 + i) =
          store.slot (n + 1 + i) := by
        rw [restoreSlot, slot_modifySlot, if_neg (by omega)]
      rw [hplace, ih _ h, hother]

/-! ## The file -/

private theorem slotBytes_ne_nil (saved : SavedSlot) (rest : Bytes) :
    Save.slotBytes saved ++ rest ≠ [] := by
  simp [Save.slotBytes, Save.int32Bytes]

/-- Slots that have room in the file are read as they were written, as many as are asked for. -/
theorem restoreGlobalsFrom_slotBytes {slots : List SavedSlot} (h : ∀ saved ∈ slots, saved.Storable)
    (count n offset : Nat) (store : Store) :
    store.restoreGlobalsFrom count n ⟨slots.flatMap Save.slotBytes, offset⟩ =
      (.ok (), restoreSlots n (slots.take count) store) := by
  induction slots generalizing count n offset store with
  | nil =>
    rw [List.take_nil]
    cases count <;> rfl
  | cons saved slots ih =>
    cases count with
    | zero => rfl
    | succ count =>
      have hread := Decoder.takes_savedSlot (h saved List.mem_cons_self)
        (slots.flatMap Save.slotBytes) offset
      have hmore : ¬ (Save.slotBytes saved ++ slots.flatMap Save.slotBytes).isEmpty = true := by
        simpa using slotBytes_ne_nil saved (slots.flatMap Save.slotBytes)
      rw [List.flatMap_cons, restoreGlobalsFrom, if_neg hmore, hread, List.take_succ_cons,
        restoreSlots]
      exact ih (fun other hother => h other (List.mem_cons_of_mem _ hother)) _ _ _ _

private theorem slotsBetween_getElem? (store : Store) {stop n : Nat} (h : n < stop) :
    (store.slotsBetween 0 stop)[n]? = some (store.slot n) := by
  simp [slotsBetween, h]

/-- **The file of the global variables is read by any other variables.** Let the strings of the
global slots have no zero byte. Then the file that is written of them is read without failure,
whatever the border and the fixed table of the variables that read it. Every slot that is global
for both then has the integer and the string, or no string, that were written. Every other slot, and
whether it exists, is as it was, and so are all bounds, the arrays, the border and the fixed
table. -/
theorem globals_come_back {written : Store} (hmade : written.Made)
    (hplain : ∀ n < written.border, 0 ∉ written.str n) (store : Store) :
    ∃ next, store.restoreGlobals written.globalsBytes = (.ok (), next) ∧
      (∀ n < min written.border store.border,
        (next.slot n).num = (written.slot n).num ∧ (next.slot n).str = (written.slot n).str) ∧
      (∀ n, min written.border store.border ≤ n → next.slot? n = store.slot? n) ∧
      SameOutline store next := by
  let slots := (written.slotsBetween 0 written.border).map Slot.toSaved
  have hlength : slots.length = written.border := by simp [slots, slotsBetween]
  have hstorable : ∀ saved ∈ slots, saved.Storable := by
    intro saved hsaved
    obtain ⟨slot, hslot, rfl⟩ := List.mem_map.mp hsaved
    obtain ⟨n, hn, rfl⟩ := List.mem_map.mp hslot
    rw [Nat.zero_add]
    exact (Slot.storable_toSaved (hmade.wellFormed.strings n)).mpr
      (hplain n (by simpa using hn))
  have hbytes : written.globalsBytes = slots.flatMap Save.slotBytes := by
    rw [globalsBytes, List.flatMap_map]
  refine ⟨restoreSlots 0 (slots.take store.border) store, ?_, fun n hn => ?_, fun n hn => ?_,
    sameOutline_restoreSlots 0 _ store⟩
  · rw [restoreGlobals, hbytes]
    exact restoreGlobalsFrom_slotBytes hstorable store.border 0 0 store
  · have hsaved : (slots.take store.border)[n]? = some (written.slot n).toSaved := by
      rw [List.getElem?_take_of_lt (by omega), List.getElem?_map,
        slotsBetween_getElem? written (by omega)]
      rfl
    have hslot := slot_restoreSlots (n := 0) store hsaved
    rw [Nat.zero_add, Slot.toSaved_onto (hmade.wellFormed.strings n)] at hslot
    rw [hslot]
    exact ⟨rfl, rfl⟩
  · refine slot?_restoreSlots store (.inr ?_)
    rw [List.length_take, hlength]
    omega

/-- Variables whose border lies above their fixed table. -/
def highBorder : Store :=
  ((blank 2 4).performAll
    [.edit (.setInt 0 258), .edit (.setStr 0 [0x61, 0x62]), .edit (.setInt 2 (-1)),
      .edit (.setStr 3 [0x63])]).2

/-- Variables whose border lies inside their fixed table. -/
def lowBorder : Store :=
  ((blank 8 3).performAll
    [.edit (.setLimit 1 0 9), .edit (.setStr 1 [0x64]), .edit (.setStr 3 [0x65])]).2

/-- Three slots are global for both; the fourth one is left alone, with its string. -/
theorem globals_come_back_lowBorder :
    highBorder.Made ∧ (∀ n < highBorder.border, 0 ∉ highBorder.str n) ∧
      ∃ next, lowBorder.restoreGlobals highBorder.globalsBytes = (.ok (), next) ∧
        next.int 0 = 258 ∧ (next.slot 0).str = some [0x61, 0x62] ∧ (next.slot 1).str = none ∧
        next.int 2 = -1 ∧ (next.slot 1).limit = some ⟨0, 9⟩ ∧
        next.slot? 3 = some { str := some [0x65] } := by
  have hmade : highBorder.Made := ⟨2, 4, _, rfl⟩
  have hplain : ∀ n < highBorder.border, 0 ∉ highBorder.str n := by decide
  obtain ⟨next, hread, hglobal, hother, hsame⟩ := globals_come_back hmade hplain lowBorder
  obtain ⟨hint, hstr⟩ := hglobal 0 (by decide)
  refine ⟨hmade, hplain, next, hread, hint, hstr, ?_, ?_, ?_, ?_⟩
  · exact (hglobal 1 (by decide)).2
  · exact (hglobal 2 (by decide)).1
  · exact hsame.limit 1
  · exact hother 3 (by decide)

end NovelScript.Store
