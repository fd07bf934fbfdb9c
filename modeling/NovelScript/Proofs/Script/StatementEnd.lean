import NovelScript.Proofs.Script.Bounds

/-!
# The two ways to the end of a statement

A command that has read its operands goes on from where it is, over blanks and one separator. Where
a statement ends is also computed ahead, by passing over everything up to a separator outside of
quotes. Either way leads to the same next statement, except in front of a comment that has a
separator in it: passing over everything then ends in the middle of the comment.
-/

namespace NovelScript.Script

variable {s : Script} {pos addr : Nat} {tags : Bool}

/-- A character that is no newline is passed over on the way to the end of the line. -/
theorem lt_skipToLineEnd {b : UInt8} (hb : s.byte? pos = some b) (hne : b ≠ Byte.newline) :
    pos < s.skipToLineEnd false pos := by
  obtain ⟨hpos, hat⟩ := Array.getElem?_eq_some_iff.mp hb
  have hwidth := s.charWidth_pos false hpos
  have hrest := s.le_advanceChars false (· == Byte.newline) (pos + s.charWidth false pos)
  rw [skipToLineEnd, advanceChars, dif_pos hpos, if_neg (by simpa [hat] using hne)]
  omega

/-! ## The next statement that does something -/

/-- A tag in brackets is a statement with the text between them. -/
theorem kind_tagAt (s : Script) (start : Nat) : (s.tagAt start).kind = .pretextTag
    (s.slice (start + 1)
      (s.advanceChars false (fun b => b == Byte.newline || b == Byte.rightBracket) (start + 1))) := by
  simp only [tagAt]
  split <;> rfl

/-- Statements that do nothing and go on after themselves. -/
def Passed (statement : Statement) : Prop :=
  statement.kind = .comment ∨ statement.kind = .endOfLine

instance (statement : Statement) : Decidable (Passed statement) :=
  inferInstanceAs (Decidable (_ ∨ _))

/-- A comment or the end of a line takes at least one byte. -/
theorem lt_next_of_passed (h : Passed (s.statementAt addr tags)) :
    addr < (s.statementAt addr tags).next := by
  have hstart : min addr s.size ≤ s.skipSeparators (min addr s.size) := le_advanceWhile s _ _
  revert h
  rw [statementAt]
  split
  · rintro (h | h) <;> cases h
  · next b hb =>
    have hlt := lt_size_of_byte? hb
    -- Only the first two kinds of statements are passed over.
    split
    · intro _
      dsimp only
      omega
    · split
      · next hsemicolon =>
        intro _
        have hline := lt_skipToLineEnd hb (by simp_all)
        dsimp only
        omega
      · repeat' split
        all_goals
          rintro (h | h) <;> simp [kind_tagAt, commandAt] at h

/-- The first statement from an address on that is no comment and no end of a line. -/
def nextStatement (s : Script) (tags : Bool) (addr : Nat) : Statement :=
  if Passed (s.statementAt addr tags) then
    nextStatement s tags (s.statementAt addr tags).next
  else s.statementAt addr tags
termination_by s.size - addr
decreasing_by
  have hlt := lt_next_of_passed ‹Passed _›
  have hle := (s.statementAt_le_size addr tags).2
  omega

private theorem nextStatement_of_passed (h : Passed (s.statementAt addr tags)) :
    s.nextStatement tags addr = s.nextStatement tags (s.statementAt addr tags).next := by
  rw [nextStatement, if_pos h]

/-- A comment goes on up to the end of its line. -/
theorem statementAt_of_semicolon (h : s.isAt pos Byte.semicolon = true) (tags : Bool) :
    s.statementAt pos tags =
      { kind := .comment, start := pos, next := s.skipToLineEnd false pos } := by
  have hbyte : s.byte? pos = some Byte.semicolon := beq_iff_eq.mp h
  obtain ⟨hpos, hat⟩ := Array.getElem?_eq_some_iff.mp hbyte
  have hmin : min pos s.size = pos := Nat.min_eq_left (Nat.le_of_lt hpos)
  have hstart : s.skipSeparators pos = pos := by
    rw [skipSeparators, advanceWhile, dif_pos hpos, hat, if_neg (by decide)]
  simp only [statementAt, hmin, hstart, hbyte]
  rw [if_neg (by decide), if_pos (by decide)]

/-! ## Passing over a statement -/

private theorem isBlank_iff {b : UInt8} :
    Byte.isBlank b = true ↔ b = Byte.space ∨ b = Byte.tab := by
  simp [Byte.isBlank]

/-- A blank takes one byte in every encoding. -/
theorem charWidth_of_blank (hpos : pos < s.bytes.size)
    (hblank : Byte.isBlank s.bytes[pos] = true) (narrow : Bool) : s.charWidth narrow pos = 1 := by
  have hwidth : s.encoding.width narrow s.bytes[pos] = 1 := by
    rcases isBlank_iff.mp hblank with h | h <;> rw [h] <;> cases s.encoding <;> cases narrow <;>
      decide
  unfold charWidth Encoding.charWidth
  rw [Array.getElem?_eq_getElem hpos]
  simp only [hwidth]
  omega

/-- Blanks in front of the rest of a statement make no difference. -/
theorem skipStatement_skipBlanks (s : Script) (narrow : Bool) (pos : Nat) :
    s.skipStatement narrow (s.skipBlanks pos) = s.skipStatement narrow pos := by
  unfold skipBlanks skipStatement
  fun_induction advanceWhile s Byte.isBlank pos with
  | case1 pos hpos hblank ih =>
    have hstep : s.skipStatementFrom narrow false pos =
        s.skipStatementFrom narrow false (pos + 1) := by
      rw [skipStatementFrom, dif_pos hpos, charWidth_of_blank hpos hblank]
      rcases isBlank_iff.mp hblank with h | h <;> simp only [h] <;> rfl
    rw [ih, hstep]
  | case2 => rfl
  | case3 => rfl

/-- Nothing is left of a statement that ends with its line. -/
theorem skipStatement_eq_self (hend : s.atStatementEnd pos = true)
    (hcolon : ¬ s.isAt pos Byte.colon = true) (hsemicolon : ¬ s.isAt pos Byte.semicolon = true)
    (narrow : Bool) : s.skipStatement narrow pos = pos := by
  rw [skipStatement, skipStatementFrom]
  by_cases hpos : pos < s.bytes.size
  · have hbyte : s.byte? pos = some s.bytes[pos] := Array.getElem?_eq_getElem hpos
    simp only [isAt, hbyte, beq_iff_eq, Option.some.injEq] at hcolon hsemicolon
    have hnewline : (s.bytes[pos] == Byte.newline) = true := by
      simpa [atStatementEnd, hbyte, hcolon, hsemicolon] using hend
    rw [dif_pos hpos]
    exact if_pos hnewline
  · rw [dif_neg hpos]

/-- Where execution goes on after a statement whose operands were read up to `pos`. -/
def afterStatement (s : Script) (pos : Nat) : Nat :=
  if s.isAt (s.skipBlanks pos) Byte.colon then s.skipStatement false (s.skipBlanks pos)
  else s.skipBlanks pos

/-- The end of a statement lies inside the script. -/
theorem afterStatement_le_size (h : pos ≤ s.size) : s.afterStatement pos ≤ s.size := by
  have hblanks := skipBlanks_le_size h
  rw [afterStatement]
  split
  · exact skipStatement_le_size false hblanks
  · exact hblanks

/-- Scanning over more goes on from where scanning over less has come to an end. -/
theorem advanceWhile_of_imp {p q : UInt8 → Bool} (h : ∀ b, q b = true → p b = true) (pos : Nat) :
    s.advanceWhile p (s.advanceWhile q pos) = s.advanceWhile p pos := by
  fun_induction advanceWhile s q pos with
  | case1 pos hpos hq ih =>
    rw [ih]
    conv_rhs => rw [advanceWhile, dif_pos hpos, if_pos (h _ hq)]
  | case2 | case3 => rfl

/-- A scan that looks for more bytes may stop earlier, but not before the first byte that
matters. -/
theorem advanceChars_of_imp {narrow : Bool} {p q : UInt8 → Bool}
    (himp : ∀ b, q b = true → p b = true)
    (hstop : ∀ b ∈ s.byte? (s.advanceChars narrow p pos), q b = true) :
    s.advanceChars narrow q pos = s.advanceChars narrow p pos := by
  fun_induction advanceChars s narrow p pos with
  | case1 pos hpos hp =>
    rw [advanceChars, dif_pos hpos, if_pos (hstop _ (Array.getElem?_eq_getElem hpos))]
  | case2 pos hpos hp ih =>
    rw [advanceChars, dif_pos hpos, if_neg (fun hq => hp (himp _ hq)), ih hstop]
  | case3 pos hpos => rw [advanceChars, dif_neg hpos]

/-- Only blanks and separators are passed over on the way to the next statement. -/
theorem skipSeparators_afterStatement (s : Script) (pos : Nat) :
    s.skipSeparators (s.afterStatement pos) = s.skipSeparators pos := by
  have hblanks : s.skipSeparators (s.skipBlanks pos) = s.skipSeparators pos :=
    advanceWhile_of_imp (fun b hb => by rw [hb, Bool.true_or]) pos
  rw [← hblanks, afterStatement]
  split
  · next hcolon =>
    obtain ⟨hpos, hat⟩ := Array.getElem?_eq_some_iff.mp (beq_iff_eq.mp hcolon)
    have hskip : s.skipStatement false (s.skipBlanks pos) = s.skipBlanks pos + 1 := by
      rw [skipStatement, skipStatementFrom, dif_pos hpos]
      simp only [hat]
      rfl
    rw [hskip, skipSeparators, skipSeparators]
    conv_rhs => rw [advanceWhile, dif_pos hpos, hat, if_pos (by decide)]
  · rfl

/-- Whether the comment at an address, if there is one, has no separator in it outside of quotes. -/
def unbrokenComment (s : Script) (pos : Nat) : Bool :=
  !s.isAt pos Byte.semicolon || s.skipStatement false pos == s.skipToLineEnd false pos

/-- What is left of a statement that ends with its line, or with a separator, is passed over as
execution goes on. -/
theorem skipStatement_eq_afterStatement (hend : s.atStatementEnd (s.skipBlanks pos) = true)
    (hcomment : s.isAt (s.skipBlanks pos) Byte.semicolon = false) :
    s.skipStatement false pos = s.afterStatement pos := by
  rw [← skipStatement_skipBlanks, afterStatement]
  split
  · rfl
  · next hcolon => exact skipStatement_eq_self hend hcolon (by rw [hcomment]; exact Bool.false_ne_true) _

/-- **The two ways to the end of a statement lead to the same next statement.** -/
theorem nextStatement_skipStatement (hend : s.atStatementEnd (s.skipBlanks pos) = true)
    (hcomment : s.unbrokenComment (s.skipBlanks pos) = true) (tags : Bool) :
    s.nextStatement tags (s.skipStatement false pos) =
      s.nextStatement tags (s.afterStatement pos) := by
  rw [← skipStatement_skipBlanks, afterStatement]
  by_cases hcolon : s.isAt (s.skipBlanks pos) Byte.colon = true
  · rw [if_pos hcolon]
  · rw [if_neg hcolon]
    by_cases hsemicolon : s.isAt (s.skipBlanks pos) Byte.semicolon = true
    · have hline : s.skipStatement false (s.skipBlanks pos) =
          s.skipToLineEnd false (s.skipBlanks pos) := by
        simpa [unbrokenComment, hsemicolon] using hcomment
      have hstatement := statementAt_of_semicolon hsemicolon tags
      have hpassed : Passed (s.statementAt (s.skipBlanks pos) tags) := .inl (by rw [hstatement])
      rw [hline, nextStatement_of_passed hpassed, hstatement]
    · rw [skipStatement_eq_self hend hcolon hsemicolon]

/-- A call at the end of a line, with a comment that has a separator in it. -/
def commentedCall : Script where
  bytes := (Bytes.ofText "gosub *sub ; then: %0 = 1\nend\n*sub\nreturn\n").toArray
  encoding := .utf8

/-- Passing over everything from the end of the operand on leads to the assignment in the comment,
going on from there leads to the next line. -/
theorem nextStatement_commentedCall :
    commentedCall.atStatementEnd (commentedCall.skipBlanks 10) = true ∧
      (commentedCall.nextStatement false (commentedCall.skipStatement false 10)).start = 19 ∧
      (commentedCall.nextStatement false (commentedCall.afterStatement 10)).start = 26 := by
  decide +kernel

end NovelScript.Script
