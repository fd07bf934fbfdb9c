import NovelScript.Proofs.Machine.Operands
import NovelScript.Proofs.Operand.Passing

/-!
# How far operands reach

The operands of a statement reach up to a newline, a separator or a comment that is in no literal.
Reading operands goes on towards this end and never goes beyond it: it passes over literals as
wholes, over bytes of expressions, and over the commas between operands.
-/

namespace NovelScript.Script

/-- Where the operands that are next end: at a newline, a separator or a comment in no literal. -/
def operandsEnd (s : Script) (pos : Nat) : Nat :=
  if h : pos < s.bytes.size then
    let b := s.bytes[pos]
    if b == Byte.newline || b == Byte.colon || b == Byte.semicolon then pos
    else if b == Byte.quote || b == Byte.backquote then
      operandsEnd s (s.literalEnd false b (pos + 1))
    else operandsEnd s (pos + s.charWidth false pos)
  else pos
termination_by s.bytes.size - pos
decreasing_by
  · have hle := s.le_literalEnd false s.bytes[pos] (pos + 1)
    omega
  · have hwidth := s.charWidth_pos false h
    omega

variable {s : Script} {start pos : Nat} {b : UInt8}

private theorem operandsEnd_of_byte? (hb : s.byte? pos = some b) :
    s.operandsEnd pos =
      if b == Byte.newline || b == Byte.colon || b == Byte.semicolon then pos
      else if b == Byte.quote || b == Byte.backquote then
        s.operandsEnd (s.literalEnd false b (pos + 1))
      else s.operandsEnd (pos + s.charWidth false pos) := by
  obtain ⟨hpos, rfl⟩ := Array.getElem?_eq_some_iff.mp hb
  rw [operandsEnd, dif_pos hpos]

/-- The operands do not end in front of where they begin. -/
theorem le_operandsEnd (s : Script) (pos : Nat) : pos ≤ s.operandsEnd pos := by
  fun_induction operandsEnd s pos with
  | case1 | case4 => exact Nat.le_refl _
  | case2 pos hpos b _ _ ih =>
    have hle := s.le_literalEnd false b (pos + 1)
    omega
  | case3 pos hpos b _ _ ih => omega

/-- Over an ASCII byte that neither ends a statement nor begins a literal. -/
theorem operandsEnd_succ (hb : s.byte? pos = some b) (hascii : b < 0x80)
    (hplain : b ∉ [Byte.newline, Byte.colon, Byte.semicolon, Byte.quote, Byte.backquote]) :
    s.operandsEnd (pos + 1) = s.operandsEnd pos := by
  simp only [List.mem_cons, List.not_mem_nil, or_false, not_or] at hplain
  obtain ⟨hnewline, hcolon, hsemicolon, hquote, hbackquote⟩ := hplain
  have hends : (b == Byte.newline || b == Byte.colon || b == Byte.semicolon) = false := by
    simp [hnewline, hcolon, hsemicolon]
  have hopens : (b == Byte.quote || b == Byte.backquote) = false := by
    simp [hquote, hbackquote]
  rw [operandsEnd_of_byte? hb, hends, hopens, if_neg Bool.false_ne_true, if_neg Bool.false_ne_true,
    charWidth_ascii hb hascii]

/-- From the first address on, reading operands may come to the second one. -/
structure Onward (s : Script) (start pos : Nat) : Prop where
  /-- Reading does not go back. -/
  ge : start ≤ pos
  /-- It stays in the script. -/
  le_size : pos ≤ s.size
  /-- The operands end at the same place. -/
  sameEnd : s.operandsEnd pos = s.operandsEnd start

namespace Onward

/-- An address of the script is onward from itself. -/
theorem refl (h : pos ≤ s.size) : s.Onward pos pos := ⟨Nat.le_refl pos, h, rfl⟩

/-- It does not go beyond the end of the operands. -/
theorem le_operandsEnd (h : s.Onward start pos) : pos ≤ s.operandsEnd start :=
  (s.le_operandsEnd pos).trans h.sameEnd.le

private theorem succ (h : s.Onward start pos) (hb : s.byte? pos = some b) (hascii : b < 0x80)
    (hplain : b ∉ [Byte.newline, Byte.colon, Byte.semicolon, Byte.quote, Byte.backquote]) :
    s.Onward start (pos + 1) :=
  ⟨Nat.le_succ_of_le h.ge, lt_size_of_byte? hb, (operandsEnd_succ hb hascii hplain).trans h.sameEnd⟩

end Onward

/-- Reading operands goes onward. -/
theorem passable_onward (s : Script) (start : Nat) : s.Passable false (s.Onward start) where
  le_size h := h.le_size
  byte hin h := by
    obtain ⟨b, hb, hin⟩ := (Option.any_eq_true _ _).mp hin
    refine h.succ hb (Byte.inline_of_inExpression hin).1 fun hmem => ?_
    simp only [List.mem_cons, List.not_mem_nil, or_false] at hmem
    rcases hmem with rfl | rfl | rfl | rfl | rfl <;> exact absurd hin (by decide)
  literal {pos delimiter} hdelimiter hat h := by
    have hle := s.le_literalEnd false delimiter (pos + 1)
    have hnext := (s.passable_inside false pos).literal hdelimiter hat ⟨Nat.le_refl pos, h.le_size⟩
    refine ⟨h.ge.trans hnext.1, hnext.2, ?_⟩
    rw [← h.sameEnd, operandsEnd_of_byte? (beq_iff_eq.mp hat)]
    rcases hdelimiter with rfl | rfl <;> rfl

/-- Behind an operand, if `P` is kept over a comma, too. -/
theorem Passable.behindOperand {P : Nat → Prop} {narrow : Bool} (h : s.Passable narrow P)
    (hcomma : ∀ {pos}, s.isAt pos Byte.comma = true → P pos → P (pos + 1)) (hpos : P pos) :
    P (s.behindOperand pos) := by
  have hblanks : ∀ {pos}, P pos → P (s.skipBlanks pos) := by
    intro pos hpos
    refine h.bytes (s.le_skipBlanks pos) (fun k hk hlt => ?_) hpos
    have hblank := holdsAt_of_lt_advanceWhile hk hlt
    rw [holdsAt, Option.any_eq_true] at hblank ⊢
    exact hblank.imp fun b hb => hb.imp_right Byte.inExpression_of_isBlank
  refine hblanks ?_
  rw [eat]
  split
  · next hat => exact hcomma hat (hblanks hpos)
  · exact hblanks hpos

/-- Behind an operand reading goes on in the same statement. -/
theorem Onward.behindOperand (h : s.Onward start pos) : s.Onward start (s.behindOperand pos) :=
  (s.passable_onward start).behindOperand
    (fun hat h => h.succ (beq_iff_eq.mp hat) (by decide) (by decide)) h

end NovelScript.Script
