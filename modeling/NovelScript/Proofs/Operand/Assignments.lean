import NovelScript.Proofs.Expression.Numerals
import NovelScript.Proofs.Operand.Scanning
import NovelScript.Proofs.Script.Locality

/-!
# What makes a line an assignment

Whether a line is an assignment is decided by a scan over what could be its target, with a count of
the open brackets, while the target itself is read by the readers of operands. The scan passes over
everything that is read, so that both agree on where a target begins and that it has come to its
end. The scan goes further, though: it passes over words, too, that stand between the target and an
equals sign.
-/

namespace NovelScript

/-! ## Bytes that the scan passes over -/

namespace Byte

/-- A byte that may be a part of a target outside of brackets. -/
def inTarget (b : UInt8) : Bool :=
  isSigil b || isBlank b || isNameByte b

/-- With so many brackets open, the scan passes over the byte and leaves the number of brackets as
it is. -/
def Passed (depth : Nat) (b : UInt8) : Prop :=
  b ≠ leftBracket ∧ b ≠ rightBracket ∧ (inTarget b = true ∨ 0 < depth)

private theorem passed_of_inTarget {b : UInt8} (h : inTarget b = true) (depth : Nat) :
    Passed depth b := by
  refine ⟨?_, ?_, .inl h⟩
  · rintro rfl
    cases h
  · rintro rfl
    cases h

private theorem passed_of_ne {b : UInt8} (hleft : b ≠ leftBracket) (hright : b ≠ rightBracket)
    (depth : Nat) : Passed (depth + 1) b :=
  ⟨hleft, hright, .inr depth.succ_pos⟩

private theorem passed_of_isBlank {b : UInt8} (h : isBlank b = true) (depth : Nat) :
    Passed depth b :=
  passed_of_inTarget (by rw [inTarget, h, Bool.or_true, Bool.true_or]) depth

private theorem passed_of_isNameByte {b : UInt8} (h : isNameByte b = true) (depth : Nat) :
    Passed depth b :=
  passed_of_inTarget (by rw [inTarget, h, Bool.or_true]) depth

private theorem isNameByte_of_isDigit {b : UInt8} (h : isDigit b = true) : isNameByte b = true := by
  rw [isNameByte, h, Bool.or_true, Bool.true_or]

end Byte

namespace Script

variable {s : Script} {depth pos : Nat}

private theorem targetEnd_of_passed {b : UInt8} (hb : s.byte? pos = some b)
    (h : Byte.Passed depth b) : s.targetEnd depth (pos + 1) = s.targetEnd depth pos := by
  obtain ⟨hleft, hright, hpassed⟩ := h
  rw [targetEnd_of_byte? hb, if_neg (by simpa using hleft), if_neg (by simp [hright]), if_pos]
  rcases hpassed with htarget | hopen
  · rw [Byte.inTarget] at htarget
    rw [htarget, Bool.true_or]
  · simp [hopen]

private theorem targetEnd_leftBracket (h : s.isAt pos Byte.leftBracket = true) :
    s.targetEnd (depth + 1) (pos + 1) = s.targetEnd depth pos := by
  rw [targetEnd_of_byte? (beq_iff_eq.mp h), if_pos (by decide)]

private theorem targetEnd_rightBracket (h : s.isAt pos Byte.rightBracket = true) :
    s.targetEnd depth (pos + 1) = s.targetEnd (depth + 1) pos := by
  rw [targetEnd_of_byte? (beq_iff_eq.mp h), if_neg (by decide), if_pos (by simp), Nat.add_sub_cancel]

private theorem targetEnd_advanceWhile {p : UInt8 → Bool}
    (hp : ∀ b, p b = true → Byte.Passed depth b) :
    s.targetEnd depth (s.advanceWhile p pos) = s.targetEnd depth pos := by
  fun_induction advanceWhile s p pos with
  | case1 pos hpos hb ih =>
    exact ih.trans (targetEnd_of_passed (Array.getElem?_eq_getElem hpos) (hp _ hb))
  | case2 | case3 => rfl

private theorem targetEnd_startsWith {token : Bytes} (h : s.startsWith token pos = true)
    (htoken : ∀ b ∈ token, Byte.Passed depth b) :
    s.targetEnd depth (pos + token.length) = s.targetEnd depth pos := by
  induction token generalizing pos with
  | nil => rfl
  | cons b token ih =>
    obtain ⟨hb, hrest⟩ := List.forall_mem_cons.mp htoken
    rw [startsWith, Bool.and_eq_true] at h
    rw [List.length_cons, Nat.add_comm token.length, ← Nat.add_assoc, ih h.2 hrest]
    exact targetEnd_of_passed (beq_iff_eq.mp h.1) hb

/-- A word is passed over whatever the case of its letters. -/
theorem targetEnd_startsWithWord {word : Bytes} (h : s.startsWithWord word pos = true)
    (hword : ∀ b ∈ word, Byte.isNameByte b = true) :
    s.targetEnd depth (pos + word.length) = s.targetEnd depth pos := by
  induction word generalizing pos with
  | nil => rfl
  | cons b word ih =>
    obtain ⟨hb, hrest⟩ := List.forall_mem_cons.mp hword
    rw [startsWithWord, Bool.and_eq_true] at h
    obtain ⟨c, hc, hlower⟩ := (Option.any_eq_true _ _).mp h.1
    have hname : Byte.isNameByte c = true := by
      rw [← Byte.isNameByte_lower, beq_iff_eq.mp hlower, Byte.isNameByte_lower, hb]
    rw [List.length_cons, Nat.add_comm word.length, ← Nat.add_assoc, ih h.2 hrest]
    exact targetEnd_of_passed hc (Byte.passed_of_isNameByte hname depth)

private theorem targetEnd_name? {name : String} {after : Nat}
    (h : s.name? pos = some (name, after)) : s.targetEnd depth after = s.targetEnd depth pos := by
  obtain ⟨-, hname⟩ := Option.ite_none_right_eq_some.mp h
  cases hname
  exact targetEnd_advanceWhile fun b hb => Byte.passed_of_isNameByte hb depth

end Script

/-! ## Readers -/

namespace Operand

open NovelScript.Action (Reaches)

variable {α : Type}

/-- From the position the scan with so many brackets open comes to `stop`. -/
def Towards (s : Script) (depth stop : Nat) : Cursor → Prop :=
  At fun pos => s.targetEnd depth pos = stop

private theorem reaches_moveTo {I : Cursor → Prop} {s : Script} {depth stop pos : Nat}
    (hpos : s.targetEnd depth pos = stop) :
    Reaches I (fun _ => Towards s depth stop) (moveTo pos) :=
  .modify fun _ _ => hpos

namespace Scope

/-- If the reader succeeds, the scan with so many brackets open passes over what was read. -/
def PassesOver (scope : Scope) (depth : Nat) (read : Reader α) : Prop :=
  ∀ stop, Reaches (Towards scope.script depth stop) (fun _ => Towards scope.script depth stop) read

variable {scope : Scope} {depth stop : Nat}

private theorem passesOver_pure (a : α) : scope.PassesOver depth (pure a) :=
  fun _ => .pure fun _ hc => hc

private theorem passesOver_skipBlanks : scope.PassesOver depth scope.skipBlanks := by
  refine fun stop => reaches_position fun pos hpos => reaches_moveTo ?_
  exact (Script.targetEnd_advanceWhile fun b hb => Byte.passed_of_isBlank hb depth).trans hpos

private theorem passesOver_eat {b : UInt8} (hb : Byte.Passed depth b) :
    scope.PassesOver depth (scope.eat b) := by
  refine fun stop => reaches_position fun pos hpos => .ite (fun hat => ?_) fun _ => .pure fun _ h => h
  have hnext := (Script.targetEnd_of_passed (beq_iff_eq.mp hat) hb).trans hpos
  exact .bind (reaches_moveTo hnext) fun _ => .pure fun _ h => h

/-- A bracket that was read is open. -/
theorem reaches_eat_leftBracket : Reaches (Towards scope.script depth stop)
    (fun opened => Towards scope.script (if opened then depth + 1 else depth) stop)
    (scope.eat Byte.leftBracket) := by
  refine reaches_position fun pos hpos => .ite (fun hat => ?_) fun _ => .pure fun _ h => h
  have hnext : scope.script.targetEnd (depth + 1) (pos + 1) = stop :=
    (Script.targetEnd_leftBracket hat).trans hpos
  exact .bind (reaches_moveTo hnext) fun _ => .pure fun _ h => h

private theorem reaches_eat_rightBracket : Reaches (Towards scope.script (depth + 1) stop)
    (fun closed => Towards scope.script (if closed then depth else depth + 1) stop)
    (scope.eat Byte.rightBracket) := by
  refine reaches_position fun pos hpos => .ite (fun hat => ?_) fun _ => .pure fun _ h => h
  have hnext := (Script.targetEnd_rightBracket hat).trans hpos
  exact .bind (reaches_moveTo hnext) fun _ => .pure fun _ h => h

private theorem passesOver_number? : scope.PassesOver depth scope.number? := by
  refine fun stop => reaches_position fun pos hpos =>
    .ite (fun hhex => ?_) fun _ => .ite (fun _ => ?_) fun _ => ?_
  · have hmark : scope.script.targetEnd depth (pos + 2) = stop := by
      have htoken : ∀ {token : Bytes}, (∀ b ∈ token, Byte.isNameByte b = true) →
          ∀ b ∈ token, Byte.Passed depth b := fun h b hb => Byte.passed_of_isNameByte (h b hb) depth
      refine Eq.trans ?_ hpos
      rcases Bool.or_eq_true_iff.mp hhex with hat | hat
      · exact Script.targetEnd_startsWith hat (htoken (by decide +kernel))
      · exact Script.targetEnd_startsWith hat (htoken (by decide +kernel))
    have hdigits := (Script.targetEnd_advanceWhile fun b hb =>
      Byte.passed_of_isNameByte (Byte.isNameByte_of_hexDigit? hb) depth).trans hmark
    exact .bind (reaches_moveTo hdigits) fun _ => .pure fun _ h => h
  · have hdigits := (Script.targetEnd_advanceWhile fun b hb =>
      Byte.passed_of_isNameByte (Byte.isNameByte_of_isDigit hb) depth).trans hpos
    exact .bind (reaches_moveTo hdigits) fun _ => .pure fun _ h => h
  · split
    · exact .pure fun _ h => h
    · next name after hname =>
      have hafter := (Script.targetEnd_name? hname).trans hpos
      split
      · exact .bind (reaches_moveTo hafter) fun _ => .pure fun _ h => h
      · refine .ite (fun _ => .pure fun _ h => h) fun _ => .bind (reaches_moveTo hafter) fun _ => ?_
        exact .bind (.modify fun _ h => h) fun _ => .pure fun _ h => h

/-- Inside of brackets an operator is passed over. -/
theorem targetEnd_operatorAt? {pos after : Nat} {op : Operator}
    (h : scope.operatorAt? pos = some (op, after)) :
    scope.script.targetEnd (depth + 1) after = scope.script.targetEnd (depth + 1) pos := by
  rw [Scope.operatorAt?] at h
  split at h
  · cases h
  · next b hb =>
    have hnext : ∀ c : UInt8, c ≠ Byte.leftBracket → c ≠ Byte.rightBracket → (b == c) = true →
        scope.script.targetEnd (depth + 1) (pos + 1) = scope.script.targetEnd (depth + 1) pos := by
      intro c hleft hright hbc
      exact Script.targetEnd_of_passed (beq_iff_eq.mp hbc ▸ hb) (Byte.passed_of_ne hleft hright depth)
    split_ifs at h with hadd hsub hmul hdiv hmod
    · cases h
      exact hnext _ (by decide) (by decide) hadd
    · cases h
      exact hnext _ (by decide) (by decide) hsub
    · cases h
      exact hnext _ (by decide) (by decide) hmul
    · cases h
      exact hnext _ (by decide) (by decide) hdiv
    · cases h
      exact Script.targetEnd_startsWithWord (Bool.and_eq_true_iff.mp hmod).1
        (by decide +kernel)

/-- What the readers of expressions read is passed over: expressions inside of brackets, and what a
target is made of everywhere. -/
structure ExpressionsPassed (scope : Scope) (calls : Nat) : Prop where
  /-- Expressions. -/
  expression : ∀ depth, scope.PassesOver (depth + 1) (scope.expression calls)
  /-- Rests of expressions. -/
  continuation : ∀ depth lhs op rhs,
    scope.PassesOver (depth + 1) (scope.continuation calls lhs op rhs)
  /-- Operators with their terms. -/
  operation? : ∀ depth, scope.PassesOver (depth + 1) (scope.operation? calls)
  /-- Terms. -/
  factor : ∀ depth, scope.PassesOver (depth + 1) (scope.factor calls)
  /-- References. -/
  intRefWithin : ∀ depth, scope.PassesOver depth (scope.intRefWithin calls)
  /-- Indices in brackets. -/
  subscripts : ∀ depth no, scope.PassesOver depth (scope.subscripts calls no)
  /-- Numbers after sigils. -/
  indexTerm : ∀ depth, scope.PassesOver depth (scope.indexTerm calls)

/-- Inside of brackets every byte but a bracket is passed over. -/
theorem passesOver_eat_inside {b : UInt8} (hb : b ≠ Byte.leftBracket ∧ b ≠ Byte.rightBracket) :
    scope.PassesOver (depth + 1) (scope.eat b) :=
  passesOver_eat (Byte.passed_of_ne hb.1 hb.2 depth)

/-- A byte of a target is passed over everywhere. -/
theorem passesOver_eat_inTarget {b : UInt8} (hb : Byte.inTarget b = true) :
    scope.PassesOver depth (scope.eat b) :=
  passesOver_eat (Byte.passed_of_inTarget hb depth)

namespace ExpressionsPassed

variable {calls : Nat} (ih : scope.ExpressionsPassed calls)
include ih

private theorem expression_succ (depth : Nat) :
    scope.PassesOver (depth + 1) (scope.expression (calls + 1)) := by
  intro stop
  refine .bind (passesOver_skipBlanks stop) fun _ => ?_
  refine .bind (passesOver_eat_inside (by decide) stop) fun negative => ?_
  refine .bind (passesOver_skipBlanks stop) fun _ => .bind (ih.factor depth stop) fun term => ?_
  refine .bind (ih.operation? depth stop) fun found => ?_
  cases found with
  | none => exact passesOver_pure _ stop
  | some found => exact ih.continuation depth _ _ _ stop

private theorem continuation_succ (depth : Nat) (lhs : Int32) (op : Operator) (rhs : Int32) :
    scope.PassesOver (depth + 1) (scope.continuation (calls + 1) lhs op rhs) := by
  intro stop
  refine .bind (ih.operation? depth stop) fun found => ?_
  cases found with
  | none => exact .ofExcept
  | some found =>
    refine .ite (fun _ => ?_) fun _ => ?_
    · exact .ofExcept_bind fun folded _ => ih.continuation depth _ _ _ stop
    · exact .ofExcept_bind fun folded _ => ih.continuation depth _ _ _ stop

private theorem operation?_succ (depth : Nat) :
    scope.PassesOver (depth + 1) (scope.operation? (calls + 1)) := by
  intro stop
  refine .bind (passesOver_skipBlanks stop) fun _ => reaches_position fun pos hpos => ?_
  split
  · exact passesOver_pure _ stop
  · next op after hop =>
    refine .bind (reaches_moveTo ((targetEnd_operatorAt? hop).trans hpos)) fun _ => ?_
    refine .bind (passesOver_skipBlanks stop) fun _ => .bind (ih.factor depth stop) fun term => ?_
    cases term with
    | some value => exact passesOver_pure _ stop
    | none => exact .bind (reaches_moveTo hpos) fun _ => passesOver_pure _ stop

private theorem factor_succ (depth : Nat) :
    scope.PassesOver (depth + 1) (scope.factor (calls + 1)) := by
  intro stop
  refine .bind (passesOver_eat_inside (by decide) stop) fun opened => .ite (fun _ => ?_) fun _ => ?_
  · refine .bind (ih.expression depth stop) fun value => ?_
    refine .bind (passesOver_skipBlanks stop) fun _ => ?_
    refine .bind (passesOver_eat_inside (by decide) stop) fun closed => .doUnless fun _ => ?_
    exact .bind (passesOver_skipBlanks stop) fun _ => passesOver_pure _ stop
  · refine reaches_position fun pos _ => .ite (fun _ => ?_) fun _ => ?_
    · refine .bind (ih.intRefWithin (depth + 1) stop) fun target => .ofExcept_bind fun value _ => ?_
      exact .bind (passesOver_skipBlanks stop) fun _ => passesOver_pure _ stop
    · refine .bind (passesOver_number? stop) fun value => ?_
      exact .bind (passesOver_skipBlanks stop) fun _ => passesOver_pure _ stop

private theorem intRefWithin_succ (depth : Nat) :
    scope.PassesOver depth (scope.intRefWithin (calls + 1)) := by
  intro stop
  refine .bind (passesOver_skipBlanks stop) fun _ => ?_
  refine .bind (passesOver_eat_inTarget (by decide) stop) fun isInt => .ite (fun _ => ?_) fun _ => ?_
  · refine .bind (ih.indexTerm depth stop) fun n => .ofExcept_bind fun slot _ => ?_
    exact passesOver_pure _ stop
  · refine .bind (passesOver_eat_inTarget (by decide) stop) fun isArray => ?_
    refine .ite (fun _ => ?_) fun _ => .throw _
    refine .bind (ih.indexTerm depth stop) fun no => .bind (passesOver_skipBlanks stop) fun _ => ?_
    exact .bind (ih.subscripts depth no stop) fun indices => passesOver_pure _ stop

/-- The indices stand inside of a bracket more. -/
theorem subscripts_succ (depth : Nat) (no : Int32) :
    scope.PassesOver depth (scope.subscripts (calls + 1) no) := by
  intro stop
  refine .bind reaches_eat_leftBracket fun opened => ?_
  cases opened with
  | false => exact passesOver_pure _ stop
  | true =>
    refine .bind (ih.expression depth stop) fun index => ?_
    refine .bind (passesOver_skipBlanks stop) fun _ => .bind reaches_eat_rightBracket fun closed => ?_
    cases closed with
    | false => exact .fail
    | true =>
      refine .bind (passesOver_skipBlanks stop) fun _ => ?_
      exact .bind (ih.subscripts depth no stop) fun rest => passesOver_pure _ stop

private theorem indexTerm_succ (depth : Nat) :
    scope.PassesOver depth (scope.indexTerm (calls + 1)) := by
  refine fun stop => reaches_position fun pos _ => .ite (fun _ => ?_) fun _ => ?_
  · exact .bind (ih.intRefWithin depth stop) fun target => .ofExcept
  · exact .bind (passesOver_number? stop) fun value => passesOver_pure _ stop

end ExpressionsPassed

private theorem expressionsPassed (scope : Scope) (calls : Nat) :
    scope.ExpressionsPassed calls := by
  induction calls with
  | zero =>
    exact {
      expression := fun _ => passesOver_pure _
      continuation := fun _ _ _ _ => passesOver_pure _
      operation? := fun _ => passesOver_pure _
      factor := fun _ => passesOver_pure _
      intRefWithin := fun _ _ => .throw _
      subscripts := fun _ _ => passesOver_pure _
      indexTerm := fun _ => passesOver_pure _ }
  | succ calls ih =>
    exact {
      expression := ih.expression_succ
      continuation := ih.continuation_succ
      operation? := ih.operation?_succ
      factor := ih.factor_succ
      intRefWithin := ih.intRefWithin_succ
      subscripts := ih.subscripts_succ
      indexTerm := ih.indexTerm_succ }

/-- A reference to a variable is passed over. -/
theorem passesOver_varRef (depth : Nat) : scope.PassesOver depth scope.varRef := by
  intro stop
  have hpassed := fun calls => scope.expressionsPassed calls
  refine .bind (passesOver_skipBlanks stop) fun _ => ?_
  refine .bind (passesOver_eat (Byte.passed_of_inTarget (by decide) depth) stop) fun isStr => ?_
  refine .ite (fun _ => ?_) fun _ => ?_
  · have hindex : scope.PassesOver depth scope.index := fun stop =>
      reaches_position fun _ _ => (hpassed _).indexTerm depth stop
    refine .bind (hindex stop) fun n => .bind (passesOver_skipBlanks stop) fun _ => ?_
    exact .ofExcept_bind fun slot _ => passesOver_pure _ stop
  · have href : scope.PassesOver depth scope.intRef := fun stop =>
      reaches_position fun _ _ => (hpassed _).intRefWithin depth stop
    exact .bind (href stop) fun target => .bind (passesOver_skipBlanks stop) fun _ =>
      passesOver_pure _ stop

/-- The scan comes to the same end from the start of a reference and from behind it. -/
theorem targetEnd_of_varRef {start : Nat} {target : VariableRef} {after : Cursor}
    (h : scope.varRef.run { pos := start } = .ok target after) :
    scope.script.targetEnd 0 after.pos = scope.script.targetEnd 0 start := by
  have hstart : Towards scope.script 0 (scope.script.targetEnd 0 start) { pos := start } := rfl
  exact passesOver_varRef 0 _ hstart h

end Scope

end Operand

end NovelScript
