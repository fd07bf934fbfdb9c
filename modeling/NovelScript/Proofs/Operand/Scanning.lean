import NovelScript.Operand
import NovelScript.Proofs.Action
import NovelScript.Proofs.Script.Scanning

/-!
# What readers of operands keep

A reader moves its position as scans of one line of the script do, and back to a position where it
has been. The strings that it gives are slices of the script, strings of variables, aliases, and
what is joined from these. So a property of addresses that scans keep is kept by every reader,
whether it succeeds or fails, and a property of strings that all those have is had by what is read.
The readers of expressions call each other, so that the statement about them is one induction on the
bound of their calls.
-/

namespace NovelScript

/-- The string of a value satisfies `Q`. -/
def Value.Meets (Q : Bytes → Prop) : Value → Prop
  | int _ => True
  | str value => Q value

namespace Operand

open NovelScript.Action (Keeps Gives Reaches)

/-- The position satisfies `P`. -/
def At (P : Nat → Prop) (cursor : Cursor) : Prop :=
  P cursor.pos

variable {P : Nat → Prop} {Q : Bytes → Prop} {α : Type}

private theorem keeps_position {f : Nat → Reader α} (hf : ∀ pos, P pos → Keeps (At P) (f pos)) :
    Keeps (At P) (position >>= f) := fun c hc => hf c.pos hc hc

private theorem gives_position {R : α → Prop} {f : Nat → Reader α}
    (hf : ∀ pos, P pos → Gives (At P) R (f pos)) : Gives (At P) R (position >>= f) :=
  fun c hc => hf c.pos hc hc

/-- What is done at the position may rely on what holds of it. -/
theorem reaches_position {J : α → Cursor → Prop} {f : Nat → Reader α}
    (hf : ∀ pos, P pos → Reaches (At P) J (f pos)) : Reaches (At P) J (position >>= f) :=
  fun c _ _ hc h => hf c.pos hc hc h

/-- The reader may go on at any address with the property. -/
theorem keeps_moveTo {pos : Nat} (hpos : P pos) : Keeps (At P) (moveTo pos) :=
  .modify fun _ _ => hpos

private theorem keeps_warn (warning : Warning) : Keeps (At P) (warn warning) :=
  .modify fun _ hc => hc

/-- Where a reader that succeeds has come to, and what it has given. -/
theorem of_run_eq_ok {R : α → Prop} {read : Reader α} {pos : Nat} {value : α} {after : Cursor}
    (hread : Gives (At P) R read) (hpos : P pos) (hrun : read.run { pos } = .ok value after) :
    P after.pos ∧ R value := by
  have hends := hread (show At P { pos } from hpos)
  rwa [show read { pos } = _ from hrun] at hends

namespace Scope

/-- The scans of the script keep `P`, and every string that there is to read satisfies `Q`. -/
structure Admits (scope : Scope) (P : Nat → Prop) (Q : Bytes → Prop) : Prop where
  /-- The scans of the script. -/
  scans : scope.script.LineScans scope.narrow P
  /-- The slices of the script. -/
  slice : ∀ {start stop}, P start → P stop → Q (scope.script.slice start stop)
  /-- The strings of variables. -/
  str : ∀ n, Q (scope.store.str n)
  /-- The aliases. -/
  aliases : ∀ {name value}, scope.aliases.string? name = some value → Q value
  /-- What is joined. -/
  append : ∀ {front back}, Q front → Q back → Q (front ++ back)

namespace Admits

variable {scope : Scope} (h : scope.Admits P Q)
include h

/-- Blanks are on the line. -/
theorem keeps_skipBlanks : Keeps (At P) scope.skipBlanks :=
  keeps_position fun _ hpos => keeps_moveTo (h.scans.skipBlanks hpos)

/-- So is a byte that is no newline. -/
theorem keeps_eat {b : UInt8} (hb : Byte.Inline b) : Keeps (At P) (scope.eat b) := by
  refine keeps_position fun pos hpos => .ite (fun hat => ?_) fun _ => .pure _
  exact .bind (keeps_moveTo (h.scans.isAt hat hb hpos)) fun _ => .pure _

private theorem keeps_number? : Keeps (At P) scope.number? := by
  refine keeps_position fun pos hpos => .ite (fun hhex => ?_) fun _ => .ite (fun _ => ?_) fun _ => ?_
  · have hmark : P (pos + 2) := by
      rcases Bool.or_eq_true_iff.mp hhex with hat | hat
      · exact h.scans.startsWith (Byte.inline_of_all (by decide)) hat hpos
      · exact h.scans.startsWith (Byte.inline_of_all (by decide)) hat hpos
    have hafter := h.scans.advanceWhile (fun _ => Byte.inline_of_hexDigit?) hmark
    exact .bind (keeps_moveTo hafter) fun _ => .pure _
  · have hafter := h.scans.advanceWhile (fun _ => Byte.inline_of_isDigit) hpos
    exact .bind (keeps_moveTo hafter) fun _ => .pure _
  · split
    · exact .pure _
    · next name after hname =>
      have hafter := h.scans.name? hname hpos
      split
      · exact .bind (keeps_moveTo hafter) fun _ => .pure _
      · refine .ite (fun _ => .pure _) fun _ => .bind (keeps_moveTo hafter) fun _ => ?_
        exact .bind (keeps_warn _) fun _ => .pure _

/-- A scan can come to the end of an operator. -/
theorem operatorAt? {pos after : Nat} {op : Operator} (hpos : P pos)
    (hfound : scope.operatorAt? pos = some (op, after)) : P after := by
  rw [Scope.operatorAt?] at hfound
  split at hfound
  · cases hfound
  · next b hb =>
    have hnext : ∀ c : UInt8, Byte.Inline c → (b == c) = true → P (pos + 1) := by
      intro c hc hbc
      exact h.scans.ascii hb (beq_iff_eq.mp hbc ▸ hc) hpos
    split_ifs at hfound with hadd hsub hmul hdiv hmod
    · cases hfound
      exact hnext _ (by decide) hadd
    · cases hfound
      exact hnext _ (by decide) hsub
    · cases hfound
      exact hnext _ (by decide) hmul
    · cases hfound
      exact hnext _ (by decide) hdiv
    · cases hfound
      have hword := (Bool.and_eq_true_iff.mp hmod).1
      exact h.scans.startsWithWord (Byte.inline_of_all (by decide)) hword hpos

end Admits

/-! ## Expressions -/

/-- All readers of expressions keep `P`. -/
structure ExpressionsKeep (scope : Scope) (P : Nat → Prop) (calls : Nat) : Prop where
  /-- Expressions do. -/
  expression : Keeps (At P) (scope.expression calls)
  /-- Rests of expressions do. -/
  continuation : ∀ lhs op rhs, Keeps (At P) (scope.continuation calls lhs op rhs)
  /-- Operators with their terms do. -/
  operation? : Keeps (At P) (scope.operation? calls)
  /-- Terms do. -/
  factor : Keeps (At P) (scope.factor calls)
  /-- References do. -/
  intRefWithin : Keeps (At P) (scope.intRefWithin calls)
  /-- Indices in brackets do. -/
  subscripts : ∀ no, Keeps (At P) (scope.subscripts calls no)
  /-- Numbers after sigils do. -/
  indexTerm : Keeps (At P) (scope.indexTerm calls)

namespace ExpressionsKeep

variable {scope : Scope} {calls : Nat} (ih : scope.ExpressionsKeep P calls)
include ih

private theorem continuation_succ (lhs : Int32) (op : Operator) (rhs : Int32) :
    Keeps (At P) (scope.continuation (calls + 1) lhs op rhs) := by
  refine .bind ih.operation? fun found => ?_
  cases found with
  | none => exact .ofExcept
  | some found =>
    refine .ite (fun _ => ?_) fun _ => ?_
    · exact .ofExcept_bind fun folded _ => ih.continuation _ _ _
    · exact .ofExcept_bind fun folded _ => ih.continuation _ _ _

variable (h : scope.Admits P Q)
include h

private theorem expression_succ : Keeps (At P) (scope.expression (calls + 1)) := by
  refine .bind h.keeps_skipBlanks fun _ => .bind (h.keeps_eat (by decide)) fun negative => ?_
  refine .bind h.keeps_skipBlanks fun _ => .bind ih.factor fun term => ?_
  refine .bind ih.operation? fun found => ?_
  cases found with
  | none => exact .pure _
  | some found => exact ih.continuation _ _ _

private theorem operation?_succ : Keeps (At P) (scope.operation? (calls + 1)) := by
  refine .bind h.keeps_skipBlanks fun _ => keeps_position fun pos hpos => ?_
  split
  · exact .pure _
  · next op after hop =>
    refine .bind (keeps_moveTo (h.operatorAt? hpos hop)) fun _ => ?_
    refine .bind h.keeps_skipBlanks fun _ => .bind ih.factor fun term => ?_
    cases term with
    | some value => exact .pure _
    | none => exact .bind (keeps_moveTo hpos) fun _ => .pure _

private theorem factor_succ : Keeps (At P) (scope.factor (calls + 1)) := by
  refine .bind (h.keeps_eat (by decide)) fun opened => .ite (fun _ => ?_) fun _ => ?_
  · refine .bind ih.expression fun value => .bind h.keeps_skipBlanks fun _ => ?_
    refine .bind (h.keeps_eat (by decide)) fun closed => ?_
    exact .doUnless (.throw _) (.bind h.keeps_skipBlanks fun _ => .pure _)
  · refine keeps_position fun pos _ => .ite (fun _ => ?_) fun _ => ?_
    · refine .bind ih.intRefWithin fun target => .ofExcept_bind fun value _ => ?_
      exact .bind h.keeps_skipBlanks fun _ => .pure _
    · exact .bind h.keeps_number? fun value => .bind h.keeps_skipBlanks fun _ => .pure _

private theorem intRefWithin_succ : Keeps (At P) (scope.intRefWithin (calls + 1)) := by
  refine .bind h.keeps_skipBlanks fun _ => .bind (h.keeps_eat (by decide)) fun isInt => ?_
  refine .ite (fun _ => ?_) fun _ => .bind (h.keeps_eat (by decide)) fun isArray => ?_
  · exact .bind ih.indexTerm fun n => .ofExcept_bind fun slot _ => .pure _
  · refine .ite (fun _ => ?_) fun _ => .throw _
    refine .bind ih.indexTerm fun no => .bind h.keeps_skipBlanks fun _ => ?_
    exact .bind (ih.subscripts _) fun indices => .pure _

private theorem subscripts_succ (no : Int32) : Keeps (At P) (scope.subscripts (calls + 1) no) := by
  refine .bind (h.keeps_eat (by decide)) fun opened => .ite (fun _ => ?_) fun _ => .pure _
  refine .bind ih.expression fun index => .bind h.keeps_skipBlanks fun _ => ?_
  refine .bind (h.keeps_eat (by decide)) fun closed => .doUnless (.throw _) ?_
  exact .bind h.keeps_skipBlanks fun _ => .bind (ih.subscripts _) fun rest => .pure _

private theorem indexTerm_succ : Keeps (At P) (scope.indexTerm (calls + 1)) := by
  refine keeps_position fun pos _ => .ite (fun _ => ?_) fun _ => ?_
  · exact .bind ih.intRefWithin fun target => .ofExcept
  · exact .bind h.keeps_number? fun value => .pure _

end ExpressionsKeep

namespace Admits

variable {scope : Scope} (h : scope.Admits P Q)
include h

/-- All readers of expressions stay at such addresses, however many calls they may make. -/
theorem expressionsKeep (calls : Nat) : scope.ExpressionsKeep P calls := by
  induction calls with
  | zero => exact ⟨.pure _, fun _ _ _ => .pure _, .pure _, .pure _, .throw _, fun _ => .pure _, .pure _⟩
  | succ calls ih =>
    exact {
      expression := ih.expression_succ h
      continuation := ih.continuation_succ
      operation? := ih.operation?_succ h
      factor := ih.factor_succ h
      intRefWithin := ih.intRefWithin_succ h
      subscripts := ih.subscripts_succ h
      indexTerm := ih.indexTerm_succ h }

/-! ## Operands -/

/-- Integer expressions stay at such addresses. -/
theorem keeps_int : Keeps (At P) scope.int :=
  keeps_position fun _ _ => (h.expressionsKeep _).expression

/-- So do references to integer variables. -/
theorem keeps_intRef : Keeps (At P) scope.intRef :=
  keeps_position fun _ _ => (h.expressionsKeep _).intRefWithin

/-- So do the numbers after sigils. -/
theorem keeps_index : Keeps (At P) scope.index :=
  keeps_position fun _ _ => (h.expressionsKeep _).indexTerm

/-- So do references to variables of any kind. -/
theorem keeps_varRef : Keeps (At P) scope.varRef := by
  refine .bind h.keeps_skipBlanks fun _ => .bind (h.keeps_eat (by decide)) fun isStr => ?_
  refine .ite (fun _ => ?_) fun _ => ?_
  · refine .bind h.keeps_index fun n => .bind h.keeps_skipBlanks fun _ => ?_
    exact .ofExcept_bind fun slot _ => .pure _
  · exact .bind h.keeps_intRef fun target => .bind h.keeps_skipBlanks fun _ => .pure _

/-- So do string variables in text. -/
theorem keeps_strIndex : Keeps (At P) scope.strIndex := by
  refine .bind (h.keeps_eat (by decide)) fun isStr => .ite (fun _ => ?_) fun _ => .throw _
  exact .bind h.keeps_index fun n => .ofExcept

/-- A literal is a slice of the script between such addresses. -/
theorem gives_literal {delimiter : UInt8} (hdelimiter : Byte.Inline delimiter) :
    Gives (At P) Q (scope.literal delimiter) := by
  refine gives_position fun pos hpos => ?_
  have hstop : P (scope.script.advanceChars scope.narrow
      (fun b => b == Byte.newline || b == delimiter) pos) := h.scans.advanceChars rfl hpos
  have hslice := h.slice hpos hstop
  refine .ite (fun hat => ?_) fun _ => ?_
  · exact .andThen (keeps_moveTo (h.scans.isAt hat hdelimiter hstop)) fun _ => .pure hslice
  · refine .andThen (keeps_moveTo hstop) fun _ => ?_
    exact .andThen (keeps_warn _) fun _ => .pure hslice

/-- The terms of a string expression are slices, aliases, and strings of variables. -/
theorem gives_strTerm : Gives (At P) Q scope.strTerm := by
  refine .andThen h.keeps_skipBlanks fun _ => gives_position fun pos hpos => ?_
  split
  · exact .throw _
  · next b hb =>
    have hnext : Byte.Inline b → P (pos + 1) := fun hinline => h.scans.ascii hb hinline hpos
    refine .ite (fun hquote => ?_) fun _ => .ite (fun hdollar => ?_) fun _ =>
      .ite (fun hstar => ?_) fun _ => ?_
    · have hinline : Byte.Inline b := by
        rcases Bool.or_eq_true_iff.mp hquote with hb | hb
        · exact beq_iff_eq.mp hb ▸ by decide
        · exact beq_iff_eq.mp hb ▸ by decide
      exact .andThen (keeps_moveTo (hnext hinline)) fun _ => h.gives_literal hinline
    · have hmove := keeps_moveTo (hnext (beq_iff_eq.mp hdollar ▸ by decide))
      refine .andThen hmove fun _ => .andThen h.keeps_index fun n => ?_
      exact .ofExcept_bind fun slot _ => .pure (h.str slot)
    · have hafter : P (((scope.script.name? (pos + 1)).map Prod.snd).getD (pos + 1)) := by
        have hstart := hnext (beq_iff_eq.mp hstar ▸ by decide)
        cases hname : scope.script.name? (pos + 1) with
        | none => exact hstart
        | some found =>
          obtain ⟨name, after⟩ := found
          exact h.scans.name? hname hstart
      exact .andThen (keeps_moveTo hafter) fun _ => .pure (h.slice hpos hafter)
    · split
      · next name after hname =>
        split
        · next value halias =>
          exact .andThen (keeps_moveTo (h.scans.name? hname hpos)) fun _ => .pure (h.aliases halias)
        · exact .throw _
      · exact .ite (fun _ => .throw _) fun _ => .throw _

private theorem gives_strTail (terms : Nat) {front : Bytes} (hfront : Q front) :
    Gives (At P) Q (scope.strTail terms front) := by
  induction terms generalizing front with
  | zero => exact .pure hfront
  | succ terms ih =>
    refine .andThen h.keeps_skipBlanks fun _ => .andThen (h.keeps_eat (by decide)) fun joined => ?_
    refine .ite (fun _ => ?_) fun _ => .pure hfront
    refine .andThen h.keeps_skipBlanks fun _ => .bind h.gives_strTerm fun term hterm => ?_
    exact ih (h.append hfront hterm)

/-- So a string expression is made of what satisfies `Q`. -/
theorem gives_str : Gives (At P) Q scope.str :=
  .bind h.gives_strTerm fun _ hterm => gives_position fun _ _ => h.gives_strTail _ hterm

/-- And so is what an assignment writes. -/
theorem gives_assignment : Gives (At P) (fun assigned => assigned.2.Meets Q) scope.assignment := by
  refine .andThen h.keeps_varRef fun target => .andThen h.keeps_skipBlanks fun _ => ?_
  refine .andThen (h.keeps_eat (by decide)) fun assigned => .ite (fun _ => ?_) fun _ => .fail
  refine .andThen h.keeps_skipBlanks fun _ => .ite (fun _ => ?_) fun _ => ?_
  · exact .bind h.gives_str fun value hvalue => .pure hvalue
  · exact .andThen h.keeps_int fun value => .pure trivial

/-- Reading a label stays at such addresses. -/
theorem keeps_label : Keeps (At P) scope.label := by
  refine .bind h.keeps_skipBlanks fun _ => .bind (h.keeps_eat (by decide)) fun starred => ?_
  refine .ite (fun _ => ?_) fun _ => ?_
  · refine keeps_position fun pos hpos => ?_
    split
    · exact .throw _
    · next name after hname =>
      refine .bind (keeps_moveTo (h.scans.name? hname hpos)) fun _ => ?_
      exact .bind h.keeps_skipBlanks fun _ => .pure _
  · exact .bind h.gives_str.keeps fun bytes => .guard fun _ => .pure _

/-- So does reading a bare name. -/
theorem keeps_name : Keeps (At P) scope.name := by
  refine .bind h.keeps_skipBlanks fun _ => keeps_position fun pos hpos => ?_
  split
  · exact .throw _
  · next name after hname =>
    exact .bind (keeps_moveTo (h.scans.name? hname hpos)) fun _ => .pure _

end Admits

end Scope

end Operand

end NovelScript
