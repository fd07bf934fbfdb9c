import NovelScript.Proofs.Operand.Extent
import NovelScript.Proofs.Operand.Literals
import NovelScript.Proofs.Script.StatementEnd

/-!
# Passing over operands

The rest of a statement can be passed over without reading it: up to a separator, or up to the
newline, with an eye on double quotes only. Reading knows literals in backquotes, too. Where none of
these holds a separator or a double quote, reading operands goes on towards the end that passing
over finds.
-/

namespace NovelScript.Script

variable {s : Script} {start pos : Nat} {b delimiter : UInt8} {narrow quoted : Bool}

private theorem skipStatementFrom_of_byte? (hb : s.byte? pos = some b) (narrow quoted : Bool) :
    s.skipStatementFrom narrow quoted pos =
      if b == Byte.newline then pos
      else if b == Byte.colon && !quoted then pos + 1
      else s.skipStatementFrom narrow (xor quoted (b == Byte.quote)) (pos + s.charWidth narrow pos) := by
  obtain ⟨hpos, rfl⟩ := Array.getElem?_eq_some_iff.mp hb
  rw [skipStatementFrom, dif_pos hpos]

/-- An ASCII byte that neither ends the line nor the statement is passed over, and may be a
quote. -/
theorem skipStatementFrom_succ (hb : s.byte? pos = some b) (hascii : b < 0x80)
    (hnewline : (b == Byte.newline) = false) (hcolon : (b == Byte.colon && !quoted) = false) :
    s.skipStatementFrom narrow quoted pos =
      s.skipStatementFrom narrow (xor quoted (b == Byte.quote)) (pos + 1) := by
  rw [skipStatementFrom_of_byte? hb, hnewline, hcolon, charWidth_ascii hb hascii,
    if_neg Bool.false_ne_true, if_neg Bool.false_ne_true]

/-- At the end of a line passing over stops, whatever was quoted. -/
theorem skipStatementFrom_eq_self (h : ∀ b ∈ s.byte? pos, b = Byte.newline) (narrow quoted : Bool) :
    s.skipStatementFrom narrow quoted pos = pos := by
  cases hb : s.byte? pos with
  | none =>
    rw [skipStatementFrom, dif_neg]
    exact Nat.not_lt.mpr (Array.getElem?_eq_none_iff.mp hb)
  | some b => rw [skipStatementFrom_of_byte? hb, h b hb, if_pos (beq_self_eq_true _)]

/-- Characters that neither end the line nor the statement, and are no quotes, are passed over. -/
theorem skipStatementFrom_advanceChars {p : UInt8 → Bool} (hnewline : p Byte.newline = true)
    (hcolon : quoted = false → p Byte.colon = true) (hquote : p Byte.quote = true) (pos : Nat) :
    s.skipStatementFrom narrow quoted (s.advanceChars narrow p pos) =
      s.skipStatementFrom narrow quoted pos := by
  fun_induction advanceChars s narrow p pos with
  | case1 | case3 => rfl
  | case2 pos hpos hstop ih =>
    have hb : s.byte? pos = some s.bytes[pos] := Array.getElem?_eq_getElem hpos
    have hne : ∀ {b}, p b = true → (s.bytes[pos] == b) = false := by
      intro b hb
      rw [beq_eq_false_iff_ne]
      rintro rfl
      exact hstop hb
    have hpasses : (s.bytes[pos] == Byte.colon && !quoted) = false := by
      cases quoted with
      | true => rw [Bool.not_true, Bool.and_false]
      | false => rw [hne (hcolon rfl), Bool.false_and]
    rw [ih, skipStatementFrom_of_byte? hb, hne hnewline, hpasses, hne hquote, Bool.xor_false,
      if_neg Bool.false_ne_true, if_neg Bool.false_ne_true]

/-- A literal is passed over as a whole if nothing in it ends the statement, or looks like a
quote. -/
theorem skipStatement_literalEnd (hdelimiter : delimiter = Byte.quote ∨ delimiter = Byte.backquote)
    (hat : s.isAt pos delimiter = true) {stop : Nat}
    (hstop : s.advanceChars false (fun b => b == Byte.newline || b == delimiter) (pos + 1) = stop)
    (htext : s.skipStatementFrom false (delimiter == Byte.quote) stop =
      s.skipStatementFrom false (delimiter == Byte.quote) (pos + 1)) :
    s.skipStatement false (s.literalEnd false delimiter (pos + 1)) = s.skipStatement false pos := by
  have hascii : delimiter < 0x80 := by rcases hdelimiter with rfl | rfl <;> decide
  have hnewline : (delimiter == Byte.newline) = false := by
    rcases hdelimiter with rfl | rfl <;> decide
  have hcolon : ∀ quoted, (delimiter == Byte.colon && !quoted) = false := by
    rcases hdelimiter with rfl | rfl <;> decide
  have hopen : s.skipStatement false pos =
      s.skipStatementFrom false (delimiter == Byte.quote) (pos + 1) := by
    rw [skipStatement, skipStatementFrom_succ (beq_iff_eq.mp hat) hascii hnewline (hcolon false),
      Bool.false_xor]
  rw [hopen, ← htext, literalEnd, hstop, skipStatement, eat]
  split
  · next hclose =>
    rw [skipStatementFrom_succ (beq_iff_eq.mp hclose) hascii hnewline (hcolon _), Bool.xor_self]
  · next hunclosed =>
    -- The literal goes on up to the end of its line.
    have hline : ∀ b ∈ s.byte? stop, b = Byte.newline := by
      intro b hb
      have hends := s.byte?_advanceChars false _ (pos + 1) b (hstop ▸ hb)
      rw [Bool.or_eq_true, beq_iff_eq, beq_iff_eq] at hends
      refine hends.resolve_right fun hclose => hunclosed ?_
      rw [isAt, hb, hclose, beq_self_eq_true]
    rw [skipStatementFrom_eq_self hline, skipStatementFrom_eq_self hline]

/-! ## Literals in backquotes -/

/-- A byte that ends a text between backquotes, or matters to passing over. -/
def endsPlainText (b : UInt8) : Bool :=
  b == Byte.newline || b == Byte.backquote || b == Byte.colon || b == Byte.quote

/-- Whether neither a separator nor a double quote is a character of the literal in backquotes whose
text begins at `pos`. -/
def plainText (s : Script) (pos : Nat) : Bool :=
  !s.holdsAt (s.advanceChars false endsPlainText pos) fun b => b == Byte.colon || b == Byte.quote

/-- Such a text is passed over as it is read. -/
theorem skipStatementFrom_plainText (h : s.plainText pos = true) :
    s.skipStatementFrom false false
        (s.advanceChars false (fun b => b == Byte.newline || b == Byte.backquote) pos) =
      s.skipStatementFrom false false pos := by
  rw [plainText, Bool.not_eq_true'] at h
  have hread : s.advanceChars false (fun b => b == Byte.newline || b == Byte.backquote) pos =
      s.advanceChars false endsPlainText pos := by
    refine advanceChars_of_imp (fun b hb => ?_) fun b hb => ?_
    · rw [endsPlainText, hb, Bool.true_or, Bool.true_or]
    · have hstop := s.byte?_advanceChars false endsPlainText pos b hb
      rw [holdsAt, hb, Option.any_some] at h
      rwa [endsPlainText, Bool.or_assoc _ (b == Byte.colon), h, Bool.or_false] at hstop
  rw [hread]
  exact skipStatementFrom_advanceChars rfl (fun _ => rfl) rfl pos

/-- Whether all literals in backquotes among the operands that are next hold neither a separator nor
a double quote. -/
def plainOperands (s : Script) (pos : Nat) : Bool :=
  if h : pos < s.bytes.size then
    let b := s.bytes[pos]
    if b == Byte.newline || b == Byte.colon || b == Byte.semicolon then true
    else if b == Byte.quote then plainOperands s (s.literalEnd false b (pos + 1))
    else if b == Byte.backquote then
      s.plainText (pos + 1) && plainOperands s (s.literalEnd false b (pos + 1))
    else plainOperands s (pos + s.charWidth false pos)
  else true
termination_by s.bytes.size - pos
decreasing_by
  · have hle := s.le_literalEnd false s.bytes[pos] (pos + 1)
    omega
  · have hle := s.le_literalEnd false s.bytes[pos] (pos + 1)
    omega
  · have hwidth := s.charWidth_pos false h
    omega

private theorem plainOperands_of_byte? (hb : s.byte? pos = some b) :
    s.plainOperands pos =
      if b == Byte.newline || b == Byte.colon || b == Byte.semicolon then true
      else if b == Byte.quote then s.plainOperands (s.literalEnd false b (pos + 1))
      else if b == Byte.backquote then
        s.plainText (pos + 1) && s.plainOperands (s.literalEnd false b (pos + 1))
      else s.plainOperands (pos + s.charWidth false pos) := by
  obtain ⟨hpos, rfl⟩ := Array.getElem?_eq_some_iff.mp hb
  rw [plainOperands, dif_pos hpos]

/-- Operands that begin at the first address are read up to the second one, and passing over the
rest comes to the same end of the statement from there. -/
structure Skims (s : Script) (start pos : Nat) : Prop where
  /-- There is only text of the script. -/
  le_size : pos ≤ s.size
  /-- No literal in backquotes that is left hides anything. -/
  plain : s.plainOperands pos = true
  /-- The statement ends at the same place. -/
  sameEnd : s.skipStatement false pos = s.skipStatement false start

/-- An ASCII byte that neither ends a statement nor begins a literal is skimmed over. -/
theorem Skims.succ (h : s.Skims start pos) (hb : s.byte? pos = some b) (hascii : b < 0x80)
    (hplain : b ∉ [Byte.newline, Byte.colon, Byte.semicolon, Byte.quote, Byte.backquote]) :
    s.Skims start (pos + 1) := by
  have hne : ∀ sign ∈ [Byte.newline, Byte.colon, Byte.semicolon, Byte.quote, Byte.backquote],
      (b == sign) = false := by
    intro sign hsign
    rw [beq_eq_false_iff_ne]
    rintro rfl
    exact hplain hsign
  simp only [List.forall_mem_cons] at hne
  obtain ⟨hnewline, hcolon, hsemicolon, hquote, hbackquote, -⟩ := hne
  refine ⟨lt_size_of_byte? hb, ?_, ?_⟩
  · have hrest := plainOperands_of_byte? hb
    simp only [hnewline, hcolon, hsemicolon, hquote, hbackquote, Bool.or_self, Bool.false_eq_true,
      if_false, charWidth_ascii hb hascii] at hrest
    exact hrest ▸ h.plain
  · have hpasses : s.skipStatement false pos = s.skipStatement false (pos + 1) := by
      rw [skipStatement, skipStatement,
        skipStatementFrom_succ hb hascii hnewline (by rw [hcolon, Bool.false_and]), hquote, Bool.xor_false]
    rw [← hpasses, h.sameEnd]

/-- Reading operands goes to where passing over comes, too. -/
theorem passable_skims (s : Script) (start : Nat) : s.Passable false (s.Skims start) where
  le_size h := h.le_size
  byte hin h := by
    obtain ⟨b, hb, hin⟩ := (Option.any_eq_true _ _).mp hin
    refine h.succ hb (Byte.inline_of_inExpression hin).1 fun hmem => ?_
    simp only [List.mem_cons, List.not_mem_nil, or_false] at hmem
    rcases hmem with rfl | rfl | rfl | rfl | rfl <;> exact absurd hin (by decide)
  literal {pos delimiter} hdelimiter hat h := by
    have hsize := ((s.passable_inside false pos).literal hdelimiter hat ⟨Nat.le_refl pos, h.le_size⟩).2
    have hplain := h.plain
    rw [plainOperands_of_byte? (beq_iff_eq.mp hat)] at hplain
    rcases hdelimiter with rfl | rfl
    · refine ⟨hsize, hplain, ?_⟩
      rw [← h.sameEnd]
      refine skipStatement_literalEnd (.inl rfl) hat rfl ?_
      exact skipStatementFrom_advanceChars (by decide) (by decide) (by decide) _
    · obtain ⟨htext, hrest⟩ := Bool.and_eq_true_iff.mp hplain
      refine ⟨hsize, hrest, ?_⟩
      rw [← h.sameEnd]
      exact skipStatement_literalEnd (.inr rfl) hat rfl (skipStatementFrom_plainText htext)

end NovelScript.Script
