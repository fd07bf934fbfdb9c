import Mathlib.Logic.Function.Basic
import NovelScript.Proofs.Store.WellFormed

/-!
# Variables as a total map

Slots live in a table of fixed size or, above it, in entries that come and go. A reader cannot tell:
whatever is done to the variables, in whatever order, they answer as a map from every number to an
integer, a string that may be absent but not empty, and bounds that may be absent. The size of the
fixed table has no part in that map.
-/

namespace NovelScript

/-- Bounds that at least one value keeps. -/
abbrev Bounds := { limit : Limit // limit.lower ≤ limit.upper }

/-- The value within the bounds that is nearest to `value`. -/
def Bounds.confine (bounds : Bounds) (value : Int32) : Int32 :=
  max bounds.val.lower (min value bounds.val.upper)

/-- What the map holds for one number. -/
structure Cell where
  /-- The integer. -/
  num : Int32 := 0
  /-- The string. -/
  str : Option { bytes : Bytes // bytes ≠ [] } := none
  /-- The bounds of the integer. -/
  bounds : Option Bounds := none

namespace Cell

/-- The value that a write of `value` leaves. -/
def confine (cell : Cell) (value : Int32) : Int32 :=
  match cell.bounds with
  | none => value
  | some bounds => bounds.confine value

/-- A string as the map keeps it. -/
def keep (bytes : Bytes) : Option { bytes : Bytes // bytes ≠ [] } :=
  if h : bytes = [] then none else some ⟨bytes, h⟩

/-- Zero, as far as the bounds admit it, and no string. -/
def cleared (cell : Cell) : Cell :=
  { cell with num := cell.confine 0, str := none }

/-- An integer and a string as they are given; the bounds stay. -/
def restored (cell : Cell) (num : Int32) (str : Option Bytes) : Cell :=
  { cell with num, str := str.bind keep }

/-- The bytes of the string; an absent one reads as empty. -/
def text (cell : Cell) : Bytes :=
  match cell.str with
  | none => []
  | some str => str.val

/-- A slot with the same contents. -/
def toSlot (cell : Cell) : Slot :=
  { num := cell.num, str := cell.str.map Subtype.val, limit := cell.bounds.map Subtype.val }

end Cell

/-- All variables, as a map. -/
structure Memory where
  /-- What there is for each number. -/
  cell : Nat → Cell
  /-- Numbers below it are global. -/
  border : Nat
  /-- The declared arrays. -/
  grids : Grids

/-- One operation on the variables, also those that write through a reference or load the global
variables. -/
inductive Store.Operation where
  /-- A single edit. -/
  | edit (change : Store.Edit)
  /-- Writes an integer behind a reference. -/
  | writeInt (target : VariableRef) (value : Int32)
  /-- Writes a string behind a reference. -/
  | writeStr (target : VariableRef) (value : Bytes)
  /-- Puts stored global slots back. -/
  | restoreGlobals (bytes : Bytes)

/-- What is left after something that may fail without any change. -/
def attempted {α : Type} (before : α) : Except Fault α → Except Fault Unit × α
  | .ok next => (.ok (), next)
  | .error fault => (.error fault, before)

/-- The slots that stored globals give, at most `count` of them, and whether reading them failed in
the end. -/
def slotsOfGlobals : (count : Nat) → Feed → List SavedSlot × Except Fault Unit
  | 0, _ => ([], .ok ())
  | count + 1, feed =>
    if feed.rest.isEmpty then ([], .ok ())
    else match Decoder.savedSlot feed with
      | .error fault => ([], .error fault)
      | .ok (slot, feed) =>
        let (slots, outcome) := slotsOfGlobals count feed
        (slot :: slots, outcome)

namespace Memory

/-- A map in which nothing was written. -/
def blank (border : Nat) : Memory :=
  { cell := fun _ => {}, border, grids := {} }

/-- Changes what there is for `n`. -/
def update (memory : Memory) (n : Nat) (f : Cell → Cell) : Memory :=
  { memory with cell := Function.update memory.cell n (f (memory.cell n)) }

/-- The map after an edit. -/
def apply (memory : Memory) : Store.Edit → Except Fault Memory
  | .setInt n value =>
    .ok (memory.update n fun cell => { cell with num := cell.confine value })
  | .setStr n value => .ok (memory.update n fun cell => { cell with str := Cell.keep value })
  | .setLimit n lower upper =>
    if h : lower ≤ upper then
      let bounds : Bounds := ⟨{ lower, upper }, h⟩
      .ok (memory.update n fun cell =>
        { cell with num := bounds.confine cell.num, bounds := some bounds })
    else .error (.limitsReversed n lower upper)
  | .restoreSlot n num str => .ok (memory.update n fun cell => cell.restored num str)
  | .setBorder border => .ok { memory with border }
  | .declare no dims => do
    let grids ← memory.grids.declare no dims
    return { memory with grids }
  | .setElement no indices offset value => do
    let grids ← memory.grids.write no indices offset value
    return { memory with grids }
  | .putGrid no grid => .ok { memory with grids := memory.grids.put no grid }
  | .clearGrids => .ok { memory with grids := {} }
  | .reset => .ok
    { memory with
      cell := fun n => if n < memory.border then memory.cell n else (memory.cell n).cleared
      grids := {} }

/-- The integer behind a reference. -/
def readInt (memory : Memory) : VariableRef → Except Fault Int32
  | .int n => .ok (memory.cell n).num
  | .array no indices => memory.grids.read no indices 0
  | .str _ => .error (.mismatch .integerVariable .stringVariable)

/-- Writes an integer behind a reference. -/
def writeInt (memory : Memory) (value : Int32) : VariableRef → Except Fault Memory
  | .int n => memory.apply (.setInt n value)
  | .array no indices => memory.apply (.setElement no indices 0 value)
  | .str _ => .error (.mismatch .integerVariable .stringVariable)

/-- Writes a string behind a reference. -/
def writeStr (memory : Memory) (value : Bytes) : VariableRef → Except Fault Memory
  | .str n => memory.apply (.setStr n value)
  | .int _ => .error (.mismatch .stringVariable .integerVariable)
  | .array _ _ => .error (.mismatch .stringVariable .arrayElement)

/-- Puts slots for the numbers from `n` on, as they are. -/
def overlay (memory : Memory) (n : Nat) (slots : List SavedSlot) : Memory :=
  { memory with
    cell := fun k =>
      if k < n then memory.cell k
      else match slots[k - n]? with
        | none => memory.cell k
        | some slot => (memory.cell k).restored slot.num slot.str }

/-- Puts stored global slots back, as many as there are. -/
def restoreGlobals (memory : Memory) (bytes : Bytes) : Except Fault Unit × Memory :=
  let (slots, outcome) := slotsOfGlobals memory.border { rest := bytes, offset := 0 }
  (outcome, memory.overlay 0 slots)

/-- The stored form of the global slots. -/
def globalsBytes (memory : Memory) : Bytes :=
  (List.range memory.border).flatMap fun n =>
    Save.int32Bytes (memory.cell n).num ++ Save.stringBytes (memory.cell n).text

/-- The map after an operation, and whether the operation failed. -/
def perform (memory : Memory) : Store.Operation → Except Fault Unit × Memory
  | .edit change => attempted memory (memory.apply change)
  | .writeInt target value => attempted memory (memory.writeInt value target)
  | .writeStr target value => attempted memory (memory.writeStr value target)
  | .restoreGlobals bytes => memory.restoreGlobals bytes

/-- The map after operations in order, and which of them failed. -/
def performAll : List Store.Operation → Memory → List (Except Fault Unit) × Memory
  | [], memory => ([], memory)
  | operation :: operations, memory =>
    let (answer, next) := memory.perform operation
    let (answers, last) := performAll operations next
    (answer :: answers, last)

end Memory

/-- Everything that can be read of variables. -/
structure Readings where
  /-- The integer of each number. -/
  int : Nat → Int32
  /-- The string of each number. -/
  str : Nat → Bytes
  /-- Whether a number has a string. -/
  hasStr : Nat → Bool
  /-- The integer behind each reference. -/
  ref : VariableRef → Except Fault Int32
  /-- The stored form of the global slots. -/
  globals : Bytes

/-- What a reader finds in the map. -/
def Memory.readings (memory : Memory) : Readings where
  int n := (memory.cell n).num
  str n := (memory.cell n).text
  hasStr n := (memory.cell n).str.isSome
  ref := memory.readInt
  globals := memory.globalsBytes

namespace Store

/-- What a reader finds in the variables. -/
def readings (store : Store) : Readings where
  int := store.int
  str := store.str
  hasStr := store.hasStr
  ref := store.readInt
  globals := store.globalsBytes

/-- The variables after an operation, and whether the operation failed. -/
def perform (store : Store) : Operation → Except Fault Unit × Store
  | .edit change => attempted store (change.apply store)
  | .writeInt target value => attempted store (store.writeInt value target)
  | .writeStr target value => attempted store (store.writeStr value target)
  | .restoreGlobals bytes => store.restoreGlobals bytes

/-- The variables after operations in order, and which of them failed. -/
def performAll : List Operation → Store → List (Except Fault Unit) × Store
  | [], store => ([], store)
  | operation :: operations, store =>
    let (answer, next) := store.perform operation
    let (answers, last) := performAll operations next
    (answer :: answers, last)

end Store

/-! ## Slots and cells -/

/-- Two ways to say which value within the bounds is nearest. -/
theorem Limit.clamp_eq_confine (bounds : Bounds) (value : Int32) :
    bounds.val.clamp value = bounds.confine value := by
  obtain ⟨⟨lower, upper⟩, hle⟩ := bounds
  have hle : lower ≤ upper := hle
  have hconfine : Bounds.confine ⟨⟨lower, upper⟩, hle⟩ value =
      let least := if value ≤ upper then value else upper
      if lower ≤ least then least else lower := rfl
  rw [hconfine]
  simp only [clamp]
  grind

namespace Cell

private theorem bounded_toSlot (cell : Cell) (value : Int32) :
    cell.toSlot.bounded value = cell.confine value := by
  obtain ⟨num, str, bounds⟩ := cell
  cases bounds with
  | none => rfl
  | some bounds => exact Limit.clamp_eq_confine bounds value

private theorem map_keep (bytes : Bytes) : (keep bytes).map Subtype.val = Slot.keep bytes := by
  cases bytes <;> rfl

private theorem map_bind_keep (str : Option Bytes) :
    (str.bind keep).map Subtype.val = str.filter (!·.isEmpty) := by
  cases str with
  | none => rfl
  | some bytes => cases bytes <;> rfl

private theorem str_toSlot_ne (cell : Cell) : cell.toSlot.str ≠ some [] := by
  intro h
  obtain ⟨str, -, hempty⟩ := Option.map_eq_some_iff.mp h
  exact str.property hempty

private theorem cleared_toSlot (cell : Cell) : cell.toSlot.cleared = cell.cleared.toSlot := by
  rw [Slot.cleared, bounded_toSlot]
  rfl

private theorem restored_toSlot (cell : Cell) (num : Int32) (str : Option Bytes) :
    ({ cell.toSlot with num, str := str.filter (!·.isEmpty) } : Slot) =
      (cell.restored num str).toSlot := by
  rw [← map_bind_keep]
  rfl

end Cell

namespace Store

/-! ## One operation -/

/-- The variables hold what the map says. -/
structure Holds (store : Store) (memory : Memory) : Prop where
  /-- Every slot. -/
  slot : ∀ n, store.slot n = (memory.cell n).toSlot
  /-- The border. -/
  border : store.border = memory.border
  /-- The arrays. -/
  grids : store.grids = memory.grids
  /-- The variables are in order. -/
  wellFormed : store.WellFormed

/-- Both fail in the same way, or the variables hold what the map says. -/
inductive Alike : Except Fault Store → Except Fault Memory → Prop where
  /-- Both fail. -/
  | fail (fault : Fault) : Alike (.error fault) (.error fault)
  /-- Both succeed. -/
  | done {store : Store} {memory : Memory} (h : Holds store memory) : Alike (.ok store) (.ok memory)

/-- The blank store holds what the blank memory says. -/
theorem holds_blank (fixedSlots border : Nat) :
    Holds (blank fixedSlots border) (.blank border) where
  slot n := slot_blank fixedSlots border n
  border := rfl
  grids := rfl
  wellFormed := wellFormed_blank fixedSlots border

namespace Holds

variable {store : Store} {memory : Memory} (h : Holds store memory)
include h

/-- A change of one slot is a change of one cell. -/
theorem modify {n : Nat} {f : Slot → Slot} {g : Cell → Cell}
    (hfg : f (memory.cell n).toSlot = (g (memory.cell n)).toSlot) :
    Holds (store.modifySlot n f) (memory.update n g) where
  slot k := by
    rw [slot_modifySlot, h.slot n, hfg]
    by_cases hk : k = n
    · subst hk
      simp [Memory.update]
    · simp [Memory.update, hk, h.slot k]
  border := by
    unfold modifySlot putSlot
    split <;> exact h.border
  grids := by
    unfold modifySlot putSlot
    split <;> exact h.grids
  wellFormed := by
    apply h.wellFormed.putSlot
    rw [h.slot n, hfg]
    exact Cell.str_toSlot_ne _

/-- Other arrays in place of the declared ones. -/
theorem alike_grids {outcome : Except Fault Grids}
    (hsorted : ∀ grids, outcome = .ok grids → grids.table.Sorted) :
    Alike (outcome >>= fun grids => pure { store with grids })
      (outcome >>= fun grids => pure { memory with grids }) := by
  cases outcome with
  | error fault => exact .fail fault
  | ok grids => exact .done ⟨h.slot, h.border, rfl, h.wellFormed.withGrids (hsorted grids rfl)⟩

private theorem reset : Holds store.reset
    { memory with
      cell := fun n => if n < memory.border then memory.cell n else (memory.cell n).cleared
      grids := {} } where
  slot n := by
    rw [slot_reset h.wellFormed.overflow, h.border, h.slot n]
    dsimp only
    by_cases hn : n < memory.border
    · rw [if_pos hn, if_pos hn]
    · rw [if_neg hn, if_neg hn, Cell.cleared_toSlot]
  border := h.border
  grids := rfl
  wellFormed := h.wellFormed.reset

/-- An edit of the variables is the same edit of the map. -/
theorem apply (change : Edit) : Alike (change.apply store) (memory.apply change) := by
  cases change with
  | setInt n value =>
    refine .done (h.modify ?_)
    rw [Cell.bounded_toSlot]
    rfl
  | setStr n value =>
    refine .done (h.modify ?_)
    rw [← Cell.map_keep]
    rfl
  | setLimit n lower upper =>
    by_cases hle : lower ≤ upper
    · have hnot : ¬ upper < lower := Int32.not_lt.mpr hle
      simp only [Edit.apply, setLimit, Memory.apply, if_neg hnot, dif_pos hle]
      refine .done (h.modify ?_)
      rw [← Limit.clamp_eq_confine]
      rfl
    · have hlt : upper < lower := Int32.not_le.mp hle
      simp only [Edit.apply, setLimit, Memory.apply, if_pos hlt, dif_neg hle]
      exact .fail _
  | restoreSlot n num str => exact .done (h.modify (Cell.restored_toSlot _ num str))
  | setBorder border =>
    have hwellFormed : WellFormed { store with border } :=
      h.wellFormed.apply (show (Edit.setBorder border).apply store = .ok _ from rfl)
    exact .done ⟨h.slot, rfl, h.grids, hwellFormed⟩
  | declare no dims =>
    rw [Edit.apply, declare, Memory.apply, ← h.grids]
    refine h.alike_grids fun grids hgrids => ?_
    obtain ⟨grid, -, rfl⟩ := Grids.declare_eq_ok hgrids
    exact h.wellFormed.grids.insert no grid
  | setElement no indices offset value =>
    rw [Edit.apply, Memory.apply, ← h.grids]
    refine h.alike_grids fun grids hgrids => ?_
    obtain ⟨grid, cell, -, rfl⟩ := Grids.write_eq_ok hgrids
    exact h.wellFormed.grids.insert no _
  | putGrid no grid =>
    have hsorted := h.wellFormed.grids.insert no grid
    refine .done ⟨h.slot, h.border, ?_, h.wellFormed.withGrids hsorted⟩
    rw [h.grids]
  | clearGrids => exact .done ⟨h.slot, h.border, rfl, h.wellFormed.withGrids List.Pairwise.nil⟩
  | reset => exact .done h.reset

private theorem writeInt (target : VariableRef) (value : Int32) :
    Alike (store.writeInt value target) (memory.writeInt value target) := by
  cases target with
  | int n => exact h.apply (.setInt n value)
  | array no indices => exact h.apply (.setElement no indices 0 value)
  | str n => exact .fail _

private theorem writeStr (target : VariableRef) (value : Bytes) :
    Alike (store.writeStr value target) (memory.writeStr value target) := by
  cases target with
  | str n => exact h.apply (.setStr n value)
  | int n => exact .fail _
  | array no indices => exact .fail _

/-- What may fail without any change leaves the variables and the map alike. -/
theorem attempted {outcome : Except Fault Store} {outcome' : Except Fault Memory}
    (houtcome : Alike outcome outcome') :
    (NovelScript.attempted store outcome).1 = (NovelScript.attempted memory outcome').1 ∧
      Holds (NovelScript.attempted store outcome).2 (NovelScript.attempted memory outcome').2 := by
  cases houtcome with
  | fail fault => exact ⟨rfl, h⟩
  | done hnext => exact ⟨rfl, hnext⟩

end Holds

end Store

/-- The first of several slots is put for the first number. -/
theorem Memory.overlay_cons (memory : Memory) (n : Nat) (slot : SavedSlot)
    (slots : List SavedSlot) : memory.overlay n (slot :: slots) =
      (memory.update n fun cell => cell.restored slot.num slot.str).overlay (n + 1) slots := by
  simp only [overlay, update, Memory.mk.injEq, and_true]
  funext k
  rcases Nat.lt_trichotomy k n with hk | rfl | hk
  · have hsucc : k < n + 1 := by omega
    have hne : k ≠ n := by omega
    simp [hk, hsucc, hne]
  · simp
  · have hsub : k - n = k - (n + 1) + 1 := by omega
    have hlt : ¬ k < n := by omega
    have hsucc : ¬ k < n + 1 := by omega
    have hne : k ≠ n := by omega
    simp only [hlt, hsucc, hne, hsub, if_false, List.getElem?_cons_succ, Function.update_of_ne,
      ne_eq, not_false_eq_true]

private theorem Memory.overlay_nil (memory : Memory) (n : Nat) : memory.overlay n [] = memory := by
  simp [overlay]

namespace Store

namespace Holds

variable {store : Store} {memory : Memory}

/-- Putting stored slots back one after another puts all of them where they belong. -/
theorem restoreGlobalsFrom (h : Holds store memory) (count n : Nat) (feed : Feed) :
    (store.restoreGlobalsFrom count n feed).1 = (slotsOfGlobals count feed).2 ∧
      Holds (store.restoreGlobalsFrom count n feed).2
        (memory.overlay n (slotsOfGlobals count feed).1) := by
  induction count generalizing store memory n feed with
  | zero => exact ⟨rfl, (memory.overlay_nil n).symm ▸ h⟩
  | succ count ih =>
    rw [Store.restoreGlobalsFrom, slotsOfGlobals]
    by_cases hend : feed.rest.isEmpty = true
    · rw [if_pos hend, if_pos hend]
      exact ⟨rfl, (memory.overlay_nil n).symm ▸ h⟩
    · rw [if_neg hend, if_neg hend]
      cases Decoder.savedSlot feed with
      | error fault => exact ⟨rfl, (memory.overlay_nil n).symm ▸ h⟩
      | ok read =>
        obtain ⟨slot, rest⟩ := read
        dsimp only
        rw [Memory.overlay_cons]
        exact ih (h.modify (Cell.restored_toSlot _ slot.num slot.str)) (n + 1) rest

/-- An operation on the variables is the same operation on the map. -/
theorem perform (h : Holds store memory) (operation : Operation) :
    (store.perform operation).1 = (memory.perform operation).1 ∧
      Holds (store.perform operation).2 (memory.perform operation).2 := by
  cases operation with
  | edit change => exact h.attempted (h.apply change)
  | writeInt target value => exact h.attempted (h.writeInt target value)
  | writeStr target value => exact h.attempted (h.writeStr target value)
  | restoreGlobals bytes =>
    have hborder : store.border = memory.border := h.border
    rw [Store.perform, Store.restoreGlobals, hborder]
    exact h.restoreGlobalsFrom _ _ _

/-- So are operations in order. -/
theorem performAll (h : Holds store memory) (operations : List Operation) :
    (store.performAll operations).1 = (memory.performAll operations).1 ∧
      Holds (store.performAll operations).2 (memory.performAll operations).2 := by
  induction operations generalizing store memory with
  | nil => exact ⟨rfl, h⟩
  | cons operation operations ih =>
    obtain ⟨hanswer, hnext⟩ := h.perform operation
    obtain ⟨hanswers, hlast⟩ := ih hnext
    refine ⟨?_, hlast⟩
    rw [Store.performAll, Memory.performAll]
    dsimp only
    rw [hanswer, hanswers]

/-! ## What a reader finds -/

private theorem readInt (h : Holds store memory) (target : VariableRef) :
    store.readInt target = memory.readInt target := by
  cases target with
  | int n => simp only [Store.readInt, Memory.readInt, int, h.slot n, Cell.toSlot]
  | array no indices => simp only [Store.readInt, Memory.readInt, h.grids]
  | str n => rfl

private theorem text_eq (h : Holds store memory) (n : Nat) :
    (store.slot n).str.getD [] = (memory.cell n).text := by
  rw [h.slot n, Cell.toSlot, Cell.text]
  cases (memory.cell n).str <;> rfl

private theorem globalsBytes (h : Holds store memory) :
    store.globalsBytes = memory.globalsBytes := by
  rw [Store.globalsBytes, Memory.globalsBytes, slotsBetween, List.flatMap_map, h.border]
  refine List.flatMap_congr fun n _ => ?_
  rw [Nat.zero_add, Save.slotBytes, Slot.toSaved, h.text_eq n, h.slot n]
  rfl

/-- A reader of the variables finds what a reader of the map does. -/
theorem readings (h : Holds store memory) : store.readings = memory.readings := by
  have hint : ∀ n, store.int n = (memory.cell n).num := fun n => by
    rw [int, h.slot n, Cell.toSlot]
  have hhasStr : ∀ n, store.hasStr n = (memory.cell n).str.isSome := fun n => by
    rw [hasStr, h.slot n, Cell.toSlot, Option.isSome_map]
  simp only [Store.readings, Memory.readings, Readings.mk.injEq]
  exact ⟨funext hint, funext h.text_eq, funext hhasStr, funext h.readInt, h.globalsBytes⟩

end Holds

/-- **The variables are a total map, and nobody can tell how many slots are fixed.** Take two new
stores with the same border and any numbers of fixed slots, and do to both of them the same
operations in the same order. The same operations fail, in the same way, and whatever is then read
is the same for both; it is what the map gives after these operations. -/
theorem fixedSlots_unobservable (few many border : Nat) (operations : List Operation) :
    let small := (blank few border).performAll operations
    let large := (blank many border).performAll operations
    let memory := (Memory.blank border).performAll operations
    small.1 = large.1 ∧ small.2.readings = large.2.readings ∧
      small.1 = memory.1 ∧ small.2.readings = memory.2.readings := by
  intro small large memory
  obtain ⟨hsmall, hsmallHolds⟩ := (holds_blank few border).performAll operations
  obtain ⟨hlarge, hlargeHolds⟩ := (holds_blank many border).performAll operations
  refine ⟨hsmall.trans hlarge.symm, ?_, hsmall, hsmallHolds.readings⟩
  exact hsmallHolds.readings.trans hlargeHolds.readings.symm

/-- A reset leaves the bounds of a slot above the fixed ones, and a value that they admit. -/
example :
    ((blank 2 1).performAll
      [.edit (.setLimit 5 3 9), .edit (.setInt 5 20), .edit .reset]).2.int 5 = 3 := by decide

end Store

end NovelScript
