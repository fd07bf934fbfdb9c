import NovelScript.Proofs.Operand.Scanning
import NovelScript.Proofs.Store.WellFormed
import NovelScript.Proofs.Text.Characters

/-!
# Variables that hold texts

If every string of the variables is a text, then it stays so as long as only texts are written. That
the variables are in order is needed for a reset, which drops slots that say nothing.
-/

namespace NovelScript.Store

open NovelScript.Bytes

/-- The variables are in order, and every string is a text. -/
structure Clean (store : Store) : Prop where
  /-- They are in order. -/
  wellFormed : store.WellFormed
  /-- Every string is a text. -/
  texts : ∀ n, IsText (store.str n)

namespace Clean

variable {store next : Store} {n : Nat} {value : Int32} {text : Bytes} {target : VariableRef}
  (h : store.Clean)
include h

private theorem apply (edit : Edit) (hedit : edit.apply store = .ok next)
    (htexts : ∀ n, IsText (next.str n)) : next.Clean :=
  ⟨h.wellFormed.apply hedit, htexts⟩

/-- A slot may be changed if its string is a text afterwards. -/
theorem texts_modifySlot {f : Slot → Slot} (hf : IsText ((f (store.slot n)).str.getD []))
    (k : Nat) : IsText ((store.modifySlot n f).str k) := by
  rw [str, slot_modifySlot]
  split
  · exact hf
  · exact h.texts k

private theorem setInt : (store.setInt n value).Clean :=
  h.apply (.setInt n value) rfl (h.texts_modifySlot (h.texts n))

/-- Setting a string to a text keeps the store clean. -/
theorem setStr (htext : text.IsText) : (store.setStr n text).Clean := by
  refine h.apply (.setStr n text) rfl (h.texts_modifySlot ?_)
  simp only [Slot.keep]
  split
  · exact isText_nil
  · exact htext

/-- Setting limits keeps the store clean. -/
theorem setLimit {lower upper : Int32} (hlimit : store.setLimit n lower upper = .ok next) :
    next.Clean := by
  refine h.apply (.setLimit n lower upper) hlimit ?_
  rw [Store.setLimit] at hlimit
  split at hlimit
  · cases hlimit
  · cases hlimit
    exact h.texts_modifySlot (h.texts n)

/-- Declaring an array keeps the store clean. -/
theorem declare {no : Int32} {dims : List Int32} (hdeclare : store.declare no dims = .ok next) :
    next.Clean := by
  refine h.apply (.declare no dims) hdeclare ?_
  rw [Store.declare] at hdeclare
  cases hgrids : store.grids.declare no dims with
  | error fault =>
    rw [hgrids] at hdeclare
    cases hdeclare
  | ok grids =>
    rw [hgrids] at hdeclare
    cases hdeclare
    exact h.texts

/-- Writing an integer keeps the store clean. -/
theorem writeInt (hwrite : store.writeInt value target = .ok next) : next.Clean := by
  cases target with
  | int n =>
    cases hwrite
    exact h.setInt
  | str n => cases hwrite
  | array no indices =>
    refine h.apply (.setElement no indices 0 value) hwrite ?_
    rw [Store.writeInt] at hwrite
    cases hgrids : store.grids.write no indices 0 value with
    | error fault =>
      rw [hgrids] at hwrite
      cases hwrite
    | ok grids =>
      rw [hgrids] at hwrite
      cases hwrite
      exact h.texts

/-- Writing a text keeps the store clean. -/
theorem writeStr (htext : text.IsText) (hwrite : store.writeStr text target = .ok next) :
    next.Clean := by
  cases target with
  | str n =>
    cases hwrite
    exact h.setStr htext
  | int n => cases hwrite
  | array no indices => cases hwrite

/-- Writing a value that is an integer or a text keeps the store clean. -/
theorem write {value : Value} (hvalue : value.Meets IsText)
    (hwrite : store.write target value = .ok next) : next.Clean := by
  cases value with
  | int value => exact h.writeInt hwrite
  | str text => exact h.writeStr hvalue hwrite

/-- What is global stays as it is, and no other slot has a string any more. -/
theorem reset : store.reset.Clean := by
  refine h.apply .reset rfl fun n => ?_
  rw [str, slot_reset h.wellFormed.overflow]
  split
  · exact h.texts n
  · exact isText_nil

end Clean

end NovelScript.Store
