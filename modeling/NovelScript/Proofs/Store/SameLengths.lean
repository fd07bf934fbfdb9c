import NovelScript.Proofs.Store.Room

/-!
# Variables that differ in their strings only

Two sets of variables may hold the same integers, limits and arrays, and strings that are equally
long. Then reading an integer gives the same from both, and after values are written that differ in
the bytes of a string only, they are alike again.
-/

namespace NovelScript

/-- The same integer, or two strings that are equally long. -/
inductive Value.SameLength : Value → Value → Prop
  /-- An integer. -/
  | int (value : Int32) : SameLength (.int value) (.int value)
  /-- Two strings. -/
  | str {value value' : Bytes} (h : value'.length = value.length) :
      SameLength (.str value) (.str value')

namespace Store

/-- All variables hold the same, but for the bytes of strings. -/
structure SameLengths (store other : Store) : Prop where
  /-- The integers are the same. -/
  num : ∀ n, (other.slot n).num = (store.slot n).num
  /-- So are their limits. -/
  limit : ∀ n, (other.slot n).limit = (store.slot n).limit
  /-- The strings are equally long. -/
  str : ∀ n, (other.str n).length = (store.str n).length
  /-- The arrays are the same. -/
  grids : other.grids = store.grids

private theorem length_keep (value : Bytes) :
    ((Slot.keep value).getD []).length = value.length := by
  unfold Slot.keep
  split
  · next hempty => rw [List.isEmpty_iff.mp hempty, Option.getD_none]
  · rfl

namespace SameLengths

variable {store other : Store}

/-- A store has the same lengths as itself. -/
protected theorem refl (store : Store) : store.SameLengths store :=
  ⟨fun _ => rfl, fun _ => rfl, fun _ => rfl, rfl⟩

variable (h : store.SameLengths other)
include h

/-- Stores with the same lengths have the same integers. -/
theorem readInt (target : VariableRef) : other.readInt target = store.readInt target := by
  cases target with
  | int n => exact congrArg Except.ok (h.num n)
  | str n => rfl
  | array no indices => rw [Store.readInt, Store.readInt, h.grids]

private theorem modifySlot {n : Nat} {f g : Slot → Slot}
    (hnum : (g (other.slot n)).num = (f (store.slot n)).num)
    (hlimit : (g (other.slot n)).limit = (f (store.slot n)).limit)
    (hstr : ((g (other.slot n)).str.getD []).length = ((f (store.slot n)).str.getD []).length) :
    (store.modifySlot n f).SameLengths (other.modifySlot n g) where
  num k := by
    rw [slot_modifySlot, slot_modifySlot]
    split
    · exact hnum
    · exact h.num k
  limit k := by
    rw [slot_modifySlot, slot_modifySlot]
    split
    · exact hlimit
    · exact h.limit k
  str k := by
    rw [Store.str, Store.str, slot_modifySlot, slot_modifySlot]
    split
    · exact hstr
    · exact h.str k
  grids := by rw [grids_modifySlot, grids_modifySlot, h.grids]

private theorem setInt (n : Nat) (value : Int32) :
    (store.setInt n value).SameLengths (other.setInt n value) := by
  refine h.modifySlot ?_ (h.limit n) (h.str n)
  show Slot.bounded _ value = Slot.bounded _ value
  rw [Slot.bounded, Slot.bounded, h.limit n]

private theorem setStr (n : Nat) {value value' : Bytes} (hlength : value'.length = value.length) :
    (store.setStr n value).SameLengths (other.setStr n value') := by
  refine h.modifySlot (h.num n) (h.limit n) ?_
  show ((Slot.keep value').getD []).length = ((Slot.keep value).getD []).length
  rw [length_keep, length_keep, hlength]

/-- What cannot be written to the one cannot be written to the other, for the same reason. -/
theorem write (target : VariableRef) {value value' : Value} (hvalue : value.SameLength value') :
    (∃ fault, store.write target value = .error fault ∧ other.write target value' = .error fault) ∨
      ∃ after after', store.write target value = .ok after ∧ other.write target value' = .ok after' ∧
        after.SameLengths after' := by
  cases hvalue with
  | int value =>
    cases target with
    | int n => exact .inr ⟨_, _, rfl, rfl, h.setInt n value⟩
    | str n => exact .inl ⟨_, rfl, rfl⟩
    | array no indices =>
      simp only [Store.write, Store.writeInt, h.grids]
      cases hwritten : store.grids.write no indices 0 value with
      | error fault => exact .inl ⟨fault, rfl, rfl⟩
      | ok grids => exact .inr ⟨_, _, rfl, rfl, h.num, h.limit, h.str, rfl⟩
  | str hlength =>
    cases target with
    | str n => exact .inr ⟨_, _, rfl, rfl, h.setStr n hlength⟩
    | int n | array no indices => exact .inl ⟨_, rfl, rfl⟩

end SameLengths

end Store

end NovelScript
