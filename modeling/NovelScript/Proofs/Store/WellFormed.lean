import Mathlib.Logic.Relation
import NovelScript.Proofs.Action
import NovelScript.Proofs.Store.Edit
import NovelScript.Proofs.Table
import NovelScript.Save.Codec

/-!
# Well-formed variables

How every operation changes what a reader sees of the slots, and what no operation ever breaks:
slots above the fixed ones and arrays are kept in the order of their numbers, no slot is kept
twice, and no slot keeps an empty string.
-/

namespace NovelScript

namespace Slot

/-- A slot in which nothing was written is as good as absent. -/
theorem eq_default_of_isBlank {slot : Slot} (h : slot.isBlank = true) : slot = {} := by
  obtain ⟨num, str, limit⟩ := slot
  simp only [isBlank, Bool.and_eq_true, beq_iff_eq, Option.isNone_iff_eq_none] at h
  obtain ⟨⟨rfl, rfl⟩, rfl⟩ := h
  rfl

private theorem keep_ne_empty (value : Bytes) : keep value ≠ some [] := by
  cases value <;> simp [keep]

end Slot

namespace Grids

/-- A declaration puts an array of the declared size in. -/
theorem declare_eq_ok {grids next : Grids} {no : Int32} {dims : List Int32}
    (h : grids.declare no dims = .ok next) :
    ∃ grid : Grid, grid.Storable ∧ next = grids.put no grid := by
  rw [declare] at h
  split at h
  · cases h
  · next haxes =>
    split at h
    · cases h
    · next hsigns =>
      split at h
      · cases h
      · split at h
        · cases h
        · next count hcount =>
          cases h
          obtain ⟨hcells, hsmall⟩ := Option.filter_eq_some_iff.mp hcount
          have hfew : ¬ Grid.maxAxes < dims.length := by
            simp only [Bool.or_eq_true, not_or] at haxes
            simpa using haxes.2
          refine ⟨Grid.zeros dims count, ⟨?_, ?_, ?_, ?_⟩, rfl⟩
          · show dims.length < 2 ^ 31
            unfold Grid.maxAxes at hfew
            omega
          · intro d hd
            exact Int32.not_lt.mp (by simpa using List.find?_eq_none.mp hsigns d hd)
          · simpa [Grid.zeros] using hcells
          · simpa [Grid.zeros] using hsmall

/-- A write to an element puts an array of the same size in. -/
theorem write_eq_ok {grids next : Grids} {no : Int32} {indices : List Int32}
    {offset value : Int32} (h : grids.write no indices offset value = .ok next) :
    ∃ (grid : Grid) (cell : Nat), grids.get? no = some grid ∧
      next = grids.put no { grid with cells := grid.cells.setIfInBounds cell value } := by
  obtain ⟨grid, hgrid, h⟩ := Action.exists_of_bind_eq_ok h
  obtain ⟨cell, hcell, h⟩ := Action.exists_of_bind_eq_ok h
  cases h
  rw [lookup] at hgrid
  split at hgrid
  · next found hfound =>
    cases hgrid
    exact ⟨_, cell, hfound, rfl⟩
  · cases hgrid

end Grids

namespace Store

/-! ## Slots -/

/-- A slot that is put in place is what a reader sees there. -/
theorem slot_putSlot (store : Store) (n k : Nat) (slot : Slot) :
    (store.putSlot n slot).slot k = if k = n then slot else store.slot k := by
  unfold putSlot
  by_cases hn : n < store.fixed.size
  · rw [if_pos hn]
    by_cases hk : k < store.fixed.size
    · by_cases hkn : k = n
      · subst hkn
        simp [Store.slot, slot?, hk]
      · simp [Store.slot, slot?, hk, hkn, Ne.symm hkn]
    · have hkn : k ≠ n := by omega
      simp [Store.slot, slot?, hk, hkn]
  · rw [if_neg hn]
    by_cases hk : k < store.fixed.size
    · have hkn : k ≠ n := by omega
      simp [Store.slot, slot?, hk, hkn]
    · simp only [Store.slot, slot?, if_neg hk, Table.get?_insert]
      split <;> rfl

/-- Changing a slot changes that slot alone. -/
theorem slot_modifySlot (store : Store) (n k : Nat) (f : Slot → Slot) :
    (store.modifySlot n f).slot k = if k = n then f (store.slot n) else store.slot k :=
  slot_putSlot store n k _

/-- A reset clears the local slots. -/
theorem slot_reset {store : Store} (h : store.overflow.Sorted) (n : Nat) :
    store.reset.slot n = if n < store.border then store.slot n else (store.slot n).cleared := by
  by_cases hn : n < store.fixed.size
  · simp [Store.slot, slot?, reset, hn]
  · have hget : store.reset.overflow.get? n = ((store.overflow.get? n).map fun slot =>
        if n < store.border then slot else slot.cleared).filter fun slot => !slot.isBlank := by
      have hmap : Table.Sorted (store.overflow.map fun entry =>
          (entry.1, if entry.1 < store.border then entry.2 else entry.2.cleared)) := by
        rw [Table.Sorted, List.pairwise_map]
        exact h
      exact (hmap.get?_filter _ n).trans (congrArg _ (Table.get?_map store.overflow
        (fun k slot => if k < store.border then slot else slot.cleared) n))
    have hsize : ¬ n < store.reset.fixed.size := by simpa [reset] using hn
    simp only [Store.slot, slot?, if_neg hn, if_neg hsize, hget]
    cases store.overflow.get? n with
    | none => split <;> rfl
    | some slot =>
      rw [Option.map_some, Option.filter_some, Option.getD_some]
      -- A slot that is dropped reads as one in which nothing was written, which it is.
      by_cases hblank : (if n < store.border then slot else slot.cleared).isBlank = true
      · rw [if_neg (by simp [hblank]), Option.getD_none]
        exact (Slot.eq_default_of_isBlank hblank).symm
      · rw [if_pos (by simp [hblank]), Option.getD_some]

/-! ## What no operation breaks -/

/-- No slot is kept twice or with an empty string, and all is in order. -/
structure WellFormed (store : Store) : Prop where
  /-- No string is empty. -/
  strings : ∀ n, (store.slot n).str ≠ some []
  /-- The slots above the fixed ones are in order. -/
  overflow : store.overflow.Sorted
  /-- They are above the fixed ones. -/
  above : ∀ entry ∈ store.overflow, store.fixed.size ≤ entry.1
  /-- The arrays are in order. -/
  grids : store.grids.table.Sorted

/-- Every slot of a blank store is blank. -/
theorem slot_blank (fixedSlots border n : Nat) : (blank fixedSlots border).slot n = {} := by
  by_cases hn : n < fixedSlots
  · simp [Store.slot, slot?, blank, hn]
  · simp [Store.slot, slot?, blank, hn, Table.get?]

/-- A blank store is well formed. -/
theorem wellFormed_blank (fixedSlots border : Nat) : (blank fixedSlots border).WellFormed where
  strings n := by
    rw [slot_blank]
    simp
  overflow := List.Pairwise.nil
  above _ h := absurd h List.not_mem_nil
  grids := List.Pairwise.nil

namespace WellFormed

variable {store : Store} (h : store.WellFormed)
include h

/-- Putting a slot whose string is not empty keeps the store well formed. -/
theorem putSlot (n : Nat) {slot : Slot} (hslot : slot.str ≠ some []) :
    (store.putSlot n slot).WellFormed := by
  have hstrings : ∀ k, ((store.putSlot n slot).slot k).str ≠ some [] := by
    intro k
    rw [slot_putSlot]
    split
    · exact hslot
    · exact h.strings k
  unfold Store.putSlot at hstrings ⊢
  split at hstrings
  · next hn =>
    rw [if_pos hn]
    exact ⟨hstrings, h.overflow, fun entry hentry => by simpa using h.above entry hentry, h.grids⟩
  · next hn =>
    rw [if_neg hn]
    refine ⟨hstrings, h.overflow.insert n slot, fun entry hentry => ?_, h.grids⟩
    rcases Table.mem_insert hentry with rfl | hentry
    · exact Nat.not_lt.mp hn
    · exact h.above entry hentry

private theorem modifySlot (n : Nat) {f : Slot → Slot}
    (hf : ∀ slot : Slot, slot.str ≠ some [] → (f slot).str ≠ some []) :
    (store.modifySlot n f).WellFormed :=
  h.putSlot n (hf _ (h.strings n))

/-- Putting sorted arrays in place keeps the store well formed. -/
theorem withGrids {grids : Grids} (hgrids : grids.table.Sorted) :
    WellFormed { store with grids } :=
  ⟨h.strings, h.overflow, h.above, hgrids⟩

/-- Resetting keeps the store well formed. -/
theorem reset : store.reset.WellFormed where
  strings n := by
    rw [slot_reset h.overflow]
    split
    · exact h.strings n
    · simp [Slot.cleared]
  overflow := by
    refine List.Pairwise.filter _ ?_
    rw [List.pairwise_map]
    exact h.overflow
  above entry hentry := by
    obtain ⟨⟨n, slot⟩, hmem, rfl⟩ := List.mem_map.mp (List.mem_filter.mp hentry).1
    simpa [Store.reset] using h.above _ hmem
  grids := List.Pairwise.nil

/-- No edit breaks the order of the variables. -/
theorem apply {edit : Edit} {next : Store} (hedit : edit.apply store = .ok next) :
    next.WellFormed := by
  cases edit with
  | setInt n value =>
    cases hedit
    exact h.modifySlot n fun _ hslot => hslot
  | setStr n value =>
    cases hedit
    exact h.modifySlot n fun _ _ => Slot.keep_ne_empty value
  | setLimit n lower upper =>
    simp only [Edit.apply, setLimit] at hedit
    split at hedit
    · cases hedit
    · cases hedit
      exact h.modifySlot n fun _ hslot => hslot
  | restoreSlot n num str =>
    cases hedit
    refine h.modifySlot n fun _ _ => ?_
    intro hempty
    have hmem := (Option.filter_eq_some_iff.mp hempty).2
    simp at hmem
  | setBorder border =>
    cases hedit
    exact ⟨h.strings, h.overflow, h.above, h.grids⟩
  | declare no dims =>
    simp only [Edit.apply, Store.declare, bind, Except.bind] at hedit
    split at hedit
    · cases hedit
    · next grids hgrids =>
      cases hedit
      obtain ⟨grid, -, rfl⟩ := Grids.declare_eq_ok hgrids
      exact h.withGrids (h.grids.insert no grid)
  | setElement no indices offset value =>
    simp only [Edit.apply, bind, Except.bind] at hedit
    split at hedit
    · cases hedit
    · next grids hgrids =>
      cases hedit
      obtain ⟨grid, cell, -, rfl⟩ := Grids.write_eq_ok hgrids
      exact h.withGrids (h.grids.insert no _)
  | putGrid no grid =>
    cases hedit
    exact h.withGrids (h.grids.insert no grid)
  | clearGrids =>
    cases hedit
    exact h.withGrids List.Pairwise.nil
  | reset =>
    cases hedit
    exact h.reset

end WellFormed

/-- The variables after any number of edits that are allowed. -/
def Edits (allowed : Store → Edit → Prop) : Store → Store → Prop :=
  Relation.ReflTransGen fun store next =>
    ∃ edit : Edit, allowed store edit ∧ edit.apply store = .ok next

section Edits

variable {allowed : Store → Edit → Prop} {store next : Store}

/-- One edit is a run of edits. -/
theorem Edits.single (edit : Edit) (hallowed : allowed store edit)
    (h : edit.apply store = .ok next) : Edits allowed store next :=
  Relation.ReflTransGen.single ⟨edit, hallowed, h⟩

/-- More may be allowed. -/
theorem Edits.mono {more : Store → Edit → Prop} (h : Edits allowed store next)
    (hmore : ∀ store edit, allowed store edit → more store edit) : Edits more store next :=
  Relation.ReflTransGen.mono
    (fun _ _ ⟨edit, hallowed, hedit⟩ => ⟨edit, hmore _ _ hallowed, hedit⟩) _ _ h

/-- No number of edits breaks the order of the variables. -/
theorem WellFormed.edits (h : store.WellFormed) (hedits : Edits allowed store next) :
    next.WellFormed := by
  induction hedits with
  | refl => exact h
  | tail _ hedit ih =>
    obtain ⟨edit, -, hedit⟩ := hedit
    exact ih.apply hedit

/-- Writing an integer behind a reference is an edit. -/
theorem edit_of_writeInt {value : Int32} {target : VariableRef}
    (h : store.writeInt value target = .ok next) :
    ∃ edit : Edit, (target.Numbered → edit.Scripted store) ∧ edit.apply store = .ok next := by
  cases target with
  | int n => exact ⟨.setInt n value, .inl, h⟩
  | array no indices => exact ⟨.setElement no indices 0 value, fun _ => trivial, h⟩
  | str n => cases h

/-- Writing a string behind a reference is an edit. -/
theorem edit_of_writeStr {value : Bytes} {target : VariableRef}
    (h : store.writeStr value target = .ok next) :
    ∃ edit : Edit, (target.Numbered → edit.Scripted store) ∧ edit.apply store = .ok next := by
  cases target with
  | str n => exact ⟨.setStr n value, .inl, h⟩
  | int n => cases h
  | array no indices => cases h

/-- Writing a value of either kind is an edit. -/
theorem edit_of_write {value : Value} {target : VariableRef}
    (h : store.write target value = .ok next) :
    ∃ edit : Edit, (target.Numbered → edit.Scripted store) ∧ edit.apply store = .ok next := by
  cases value with
  | int value => exact edit_of_writeInt h
  | str value => exact edit_of_writeStr h

/-- Restoring a slot leaves the border alone. -/
theorem border_restoreSlot (store : Store) (n : Nat) (num : Int32) (str : Option Bytes) :
    (store.restoreSlot n num str).border = store.border := by
  simp only [restoreSlot, modifySlot, putSlot]
  split <;> rfl

/-- Putting stored global slots back is a number of edits. -/
theorem edits_restoreGlobalsFrom {count n : Nat} {feed : Feed}
    (hallowed : ∀ other : Store, other.border = store.border → ∀ k < n + count, ∀ num str,
      allowed other (.restoreSlot k num str)) :
    Edits allowed store (restoreGlobalsFrom count n feed store).2 := by
  induction count generalizing n feed store with
  | zero => exact .refl
  | succ count ih =>
    rw [restoreGlobalsFrom]
    split
    · exact .refl
    · split
      · exact .refl
      · next slot feed _ =>
        refine .head ⟨.restoreSlot n slot.num slot.str, hallowed _ rfl n (by omega) _ _, rfl⟩ ?_
        refine ih fun other hborder k hk => hallowed other ?_ k (by omega)
        exact hborder.trans (border_restoreSlot _ _ _ _)

end Edits

end Store

namespace SavedVariables

variable {allowed : Store → Store.Edit → Prop}

private theorem edits_restoreLocal {store : Store} {n : Nat} {slot : SavedSlot}
    (hallowed : allowed store (.restoreSlot n slot.num slot.str)) :
    Store.Edits allowed store (restoreLocal store n slot) := by
  rw [restoreLocal]
  split
  · exact .refl
  · exact Store.Edits.single (.restoreSlot n slot.num slot.str) hallowed rfl

private theorem edits_restoreLocals {n : Nat} {slots : List SavedSlot} {store : Store}
    (hallowed : ∀ store, ∀ k < n + slots.length, ∀ num str,
      allowed store (.restoreSlot k num str)) :
    Store.Edits allowed store (restoreLocals n slots store) := by
  induction slots generalizing n store with
  | nil => exact .refl
  | cons slot slots ih =>
    rw [List.length_cons] at hallowed
    have hfirst : Store.Edits allowed store (restoreLocal store n slot) :=
      edits_restoreLocal (hallowed store n (by omega) _ _)
    exact hfirst.trans (ih fun store k hk => hallowed store k (by omega))

/-- Putting saved variables back is a number of edits. -/
theorem edits_restore {saved : SavedVariables} {store : Store}
    (hreset : allowed store .reset)
    (hlocals : ∀ store, ∀ k < saved.firstLocal + saved.locals.length, ∀ num str,
      allowed store (.restoreSlot k num str))
    (hoverflow : ∀ store, ∀ entry ∈ saved.overflow, ∀ num str,
      allowed store (.restoreSlot entry.1 num str))
    (hgrids : ∀ store, ∀ entry ∈ saved.grids, allowed store (.putGrid entry.1 entry.2)) :
    Store.Edits allowed store (saved.restore store) := by
  have hslots : ∀ (entries : List (Nat × SavedSlot)) (store : Store),
      (∀ store, ∀ entry ∈ entries, ∀ num str, allowed store (.restoreSlot entry.1 num str)) →
      Store.Edits allowed store
        (entries.foldl (fun store entry => restoreLocal store entry.1 entry.2) store) := by
    intro entries
    induction entries with
    | nil => exact fun _ _ => .refl
    | cons entry entries ih =>
      intro store hallowed
      have hfirst : Store.Edits allowed store (restoreLocal store entry.1 entry.2) :=
        edits_restoreLocal (hallowed store entry List.mem_cons_self _ _)
      exact hfirst.trans (ih _ fun store e he => hallowed store e (List.mem_cons_of_mem _ he))
  have hputs : ∀ (entries : List (Int32 × Grid)) (store : Store),
      (∀ store, ∀ entry ∈ entries, allowed store (.putGrid entry.1 entry.2)) →
      Store.Edits allowed store { store with
        grids := entries.foldl (fun grids entry => grids.put entry.1 entry.2) store.grids } := by
    intro entries
    induction entries with
    | nil => exact fun _ _ => .refl
    | cons entry entries ih =>
      intro store hallowed
      refine .head ⟨.putGrid entry.1 entry.2, hallowed store entry List.mem_cons_self, rfl⟩ ?_
      exact ih { store with grids := _ } fun store e he =>
        hallowed store e (List.mem_cons_of_mem _ he)
  have hfixed : Store.Edits allowed store.reset
      (restoreLocals saved.firstLocal saved.locals store.reset) := edits_restoreLocals hlocals
  exact .head ⟨.reset, hreset, rfl⟩
    (hfixed.trans ((hslots _ _ hoverflow).trans (hputs _ _ hgrids)))

end SavedVariables

end NovelScript
