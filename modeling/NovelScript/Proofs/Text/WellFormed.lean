import NovelScript.Proofs.Text.Characters

/-!
# Well-formed text in either encoding

A byte string of the double-byte encoding is well formed if every lead byte has a second byte behind
it. Whether it is can be told byte by byte, with nothing to remember but whether a second byte is
due. In UTF-8 a byte string is well formed if it is a text.

In both encodings the newline is no part of a longer character, so that a well-formed byte string
may be cut in front of a newline, and a character begins behind every ASCII byte.
-/

namespace NovelScript

namespace Text.ShiftJis

/-- Second byte of a double-byte character. -/
def isTrail (b : UInt8) : Bool :=
  (0x40 ≤ b && b ≤ 0x7e) || (0x80 ≤ b && b ≤ 0xfc)

/-- Every lead byte is followed by a second byte; `due` says whether a second byte comes first. -/
def wellFormedAfter : (due : Bool) → Bytes → Bool
  | due, [] => !due
  | false, b :: rest => wellFormedAfter (isLead b) rest
  | true, c :: rest => isTrail c && wellFormedAfter false rest

/-- No ASCII byte is a lead byte. -/
theorem isLead_ascii {b : UInt8} (h : b < 0x80) : isLead b = false := by
  unfold isLead
  grind

variable {due : Bool} {front back : Bytes} {b : UInt8}

private theorem wellFormedAfter_append (hfront : wellFormedAfter due front = true)
    (hback : wellFormedAfter false back = true) : wellFormedAfter due (front ++ back) = true := by
  fun_induction wellFormedAfter due front with
  | case1 due =>
    obtain rfl : due = false := by simpa using hfront
    exact hback
  | case2 b rest ih => exact ih hfront
  | case3 c rest ih =>
    rw [Bool.and_eq_true] at hfront
    rw [List.cons_append, wellFormedAfter, Bool.and_eq_true]
    exact ⟨hfront.1, ih hfront.2⟩

/-- No second byte is due at a byte that cannot be one. -/
theorem wellFormedAfter_cut (h : wellFormedAfter due (front ++ b :: back) = true)
    (hb : isTrail b = false) : wellFormedAfter due front = true := by
  fun_induction wellFormedAfter due front with
  | case1 due =>
    cases due with
    | false => rfl
    | true => simp [wellFormedAfter, hb] at h
  | case2 c rest ih => exact ih h
  | case3 c rest ih =>
    rw [List.cons_append, wellFormedAfter, Bool.and_eq_true] at h
    rw [Bool.and_eq_true]
    exact ⟨h.1, ih h.2⟩

/-- Behind a byte that is no lead byte a character begins, whatever that byte is. -/
theorem wellFormedAfter_tail (h : wellFormedAfter due (front ++ b :: back) = true)
    (hb : isLead b = false) : wellFormedAfter false back = true := by
  fun_induction wellFormedAfter due front with
  | case1 due =>
    cases due with
    | false => simpa [wellFormedAfter, hb] using h
    | true => exact (Bool.and_eq_true_iff.mp h).2
  | case2 c rest ih => exact ih h
  | case3 c rest ih => exact ih (Bool.and_eq_true_iff.mp h).2

end Text.ShiftJis

namespace Encoding

open Text.ShiftJis

/-- A well-formed byte string. -/
def WellFormed : Encoding → Bytes → Prop
  | shiftJis, bytes => wellFormedAfter false bytes = true
  | utf8, bytes => bytes.IsText

/-- An ASCII byte is a character of its own. -/
theorem width_ascii (e : Encoding) (narrow : Bool) {b : UInt8} (h : b < 0x80) :
    e.width narrow b = 1 := by
  cases e with
  | shiftJis => simp [width, isLead_ascii h]
  | utf8 => exact width_of_encodeChar (encodeChar_ascii h) narrow

namespace WellFormed

variable {e : Encoding} {front back : Bytes} {b : UInt8}

/-- Two well-formed strings make a well-formed one. -/
protected theorem append (hfront : e.WellFormed front) (hback : e.WellFormed back) :
    e.WellFormed (front ++ back) := by
  cases e with
  | shiftJis => exact wellFormedAfter_append hfront hback
  | utf8 => exact Bytes.IsText.append hfront hback

/-- ASCII bytes are well formed in either encoding. -/
theorem of_ascii (e : Encoding) {bytes : Bytes} (h : bytes.IsAscii) : e.WellFormed bytes := by
  cases e with
  | utf8 => exact Bytes.isText_of_ascii h
  | shiftJis =>
    induction bytes with
    | nil => rfl
    | cons b bytes ih =>
      obtain ⟨hb, hbytes⟩ := List.forall_mem_cons.mp h
      show wellFormedAfter (isLead b) bytes = true
      rw [isLead_ascii hb]
      exact ih hbytes

/-- A newline ends what comes before it. -/
theorem cut_newline (h : e.WellFormed (front ++ Byte.newline :: back)) : e.WellFormed front := by
  cases e with
  | shiftJis => exact wellFormedAfter_cut h (by decide)
  | utf8 =>
    refine (Bytes.IsText.cut h fun b hb => ?_).1
    cases hb
    exact firstByte_of_ascii (by decide)

/-- A character begins behind every ASCII byte. -/
theorem tail (h : e.WellFormed (front ++ b :: back)) (hb : b < 0x80) : e.WellFormed back := by
  cases e with
  | shiftJis => exact wellFormedAfter_tail h (isLead_ascii hb)
  | utf8 =>
    refine Bytes.IsText.tail (Bytes.IsText.cut h fun c hc => ?_).2 hb
    cases hc
    exact firstByte_of_ascii hb

/-- The first character is there as a whole, and what follows it is well formed. -/
theorem first (h : e.WellFormed (b :: back)) :
    e.width false b ≤ back.length + 1 ∧ e.WellFormed ((b :: back).drop (e.width false b)) := by
  cases e with
  | shiftJis =>
    have hafter : wellFormedAfter (isLead b) back = true := h
    cases hlead : isLead b with
    | false =>
      rw [hlead] at hafter
      simpa [width, hlead, WellFormed] using hafter
    | true =>
      rw [hlead] at hafter
      cases back with
      | nil => cases hafter
      | cons c back => simpa [width, hlead, WellFormed] using (Bool.and_eq_true_iff.mp hafter).2
  | utf8 =>
    obtain ⟨rest, behind, rfl, -, hbehind, hwidth⟩ := Bytes.IsText.cons h
    rw [hwidth]
    simpa [WellFormed] using hbehind

end WellFormed

end Encoding

end NovelScript
