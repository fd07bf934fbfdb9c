import NovelScript.Fault

/-!
# Integer arithmetic

Script integers are 32-bit two's complement: sums, differences and products wrap around, and
division goes toward zero. The one quotient that does not fit wraps around too.
-/

namespace NovelScript

/-- An arithmetic operator. -/
inductive Operator where
  /-- Sum. -/
  | add
  /-- Difference. -/
  | sub
  /-- Product. -/
  | mul
  /-- Quotient, toward zero. -/
  | div
  /-- Remainder, with the sign of the left operand. -/
  | mod
  deriving DecidableEq, Repr

namespace Operator

/-- Whether the operator binds tighter than sum and difference. -/
def isTight : Operator → Bool
  | add | sub => false
  | mul | div | mod => true

/-- The result of an operator; only division and remainder by zero fail. -/
def apply (op : Operator) (lhs rhs : Int32) : Except Fault Int32 :=
  match op with
  | add => .ok (lhs + rhs)
  | sub => .ok (lhs - rhs)
  | mul => .ok (lhs * rhs)
  | div => if rhs = 0 then .error (.divisionByZero lhs) else .ok (lhs / rhs)
  | mod => if rhs = 0 then .error (.remainderByZero lhs) else .ok (lhs % rhs)

end Operator

end NovelScript
