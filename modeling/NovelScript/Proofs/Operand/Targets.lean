import NovelScript.Operand
import NovelScript.Proofs.Action
import NovelScript.Proofs.Store.Edit

/-!
# The references that a script can write

The number after a sigil is an integer that must not be negative, so that a reference which is read
out of a script names a slot below 2³¹.
-/

namespace NovelScript

/-- The number of a slot fits in 31 bits. -/
theorem Store.lt_of_index {n : Int32} {slot : Nat} (h : Store.index n = .ok slot) :
    slot < 2 ^ 31 := by
  rw [index] at h
  split at h
  · cases h
  · cases h
    have hlt := Int32.toInt_lt n
    omega

namespace Operand.Scope

open NovelScript.Action (Returns)

variable (scope : Scope)

private theorem returns_intRefWithin (calls : Nat) :
    Returns (scope.intRefWithin calls) VariableRef.Numbered := by
  cases calls with
  | zero => exact .throw
  | succ calls =>
    refine .bind fun _ => .bind fun isInt => .ite ?_ (.bind fun isArray => .ite ?_ .throw)
    · exact .bind fun n => .seq (.ofExcept fun _ => Store.lt_of_index) fun _ hslot => .pure hslot
    · exact .bind fun no => .bind fun _ => .bind fun indices => .pure trivial

private theorem returns_intRef : Returns scope.intRef VariableRef.Numbered :=
  .bind fun _ => scope.returns_intRefWithin _

/-- A reference that is read names a slot below 2³¹. -/
theorem returns_varRef : Returns scope.varRef VariableRef.Numbered := by
  refine .bind fun _ => .bind fun isStr => .ite ?_ ?_
  · refine .bind fun n => .bind fun _ => ?_
    exact .seq (.ofExcept fun _ => Store.lt_of_index) fun _ hslot => .pure hslot
  · exact .seq scope.returns_intRef fun target htarget => .bind fun _ => .pure htarget

/-- The target of an assignment has a number that a variable may have. -/
theorem returns_assignment : Returns scope.assignment fun assigned => assigned.1.Numbered := by
  refine .seq scope.returns_varRef fun target htarget => .bind fun _ => .bind fun assigned => ?_
  refine .ite ?_ .fail
  refine .bind fun _ => .ite ?_ ?_
  · exact .bind fun value => .pure htarget
  · exact .bind fun value => .pure htarget

end Operand.Scope

end NovelScript
