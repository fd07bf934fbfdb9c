import Mathlib.Data.Option.Basic
import NovelScript.Machine.Flow
import NovelScript.Proofs.Script.Lines
import NovelScript.Proofs.Text.WellFormed

/-!
# What scanning keeps

The scanning functions of a script move forward in two ways only: over an ASCII byte that they have
looked at, and over a whole character. Most of them stop at a newline, so that a property of
addresses which is kept over everything else is kept by them. A property that is kept over newlines,
too, is kept by every scan. Being inside the script is such a property, and so is being where a
character begins.
-/

namespace NovelScript

namespace Byte

/-- An ASCII byte other than the newline. -/
def Inline (b : UInt8) : Prop :=
  b < 0x80 ∧ b ≠ newline

instance (b : UInt8) : Decidable (Inline b) :=
  inferInstanceAs (Decidable (_ ∧ _))

/-! ## Classes of bytes are inline -/

/-- A blank stays on its line. -/
theorem inline_of_isBlank {b : UInt8} (h : isBlank b = true) : Inline b := by
  simp only [isBlank, space, tab, Bool.or_eq_true, beq_iff_eq] at h
  unfold Inline newline
  grind

/-- A digit stays on its line. -/
theorem inline_of_isDigit {b : UInt8} (h : isDigit b = true) : Inline b := by
  simp only [isDigit, Bool.and_eq_true, decide_eq_true_eq] at h
  unfold Inline newline
  grind

/-- A byte of a name stays on its line. -/
theorem inline_of_isNameByte {b : UInt8} (h : isNameByte b = true) : Inline b := by
  simp only [isNameByte, isAlpha, isUpper, isLower, isDigit, underscore, Bool.or_eq_true,
    Bool.and_eq_true, decide_eq_true_eq, beq_iff_eq] at h
  unfold Inline newline
  grind

/-- A hexadecimal digit stays on its line. -/
theorem inline_of_hexDigit? {b : UInt8} (h : (hexDigit? b).isSome = true) : Inline b := by
  unfold hexDigit? isDigit at h
  simp only [Bool.and_eq_true, decide_eq_true_eq] at h
  unfold Inline newline
  split_ifs at h <;> grind

/-- A token whose bytes were all checked stays on its line. -/
theorem inline_of_all {token : Bytes} (h : (token.all fun b => decide (Inline b)) = true) :
    ∀ b ∈ token, Inline b := fun b hb => of_decide_eq_true (List.all_eq_true.mp h b hb)

/-- A byte that is the same as an inline byte but for its case is inline. -/
theorem inline_of_lower_eq {b c : UInt8} (h : lower c = lower b) (hb : Inline b) : Inline c := by
  unfold lower isUpper at h
  simp only [Bool.and_eq_true, decide_eq_true_eq] at h
  unfold Inline newline at *
  split_ifs at h <;> grind

end Byte

namespace Script

/-- A property of addresses that every scan keeps that does not pass over newlines and reads
characters in the given mode. -/
structure LineScans (s : Script) (narrow : Bool) (P : Nat → Prop) : Prop where
  /-- It is a property of addresses. -/
  le : ∀ {pos}, P pos → pos ≤ s.size
  /-- It is kept over an ASCII byte other than the newline. -/
  ascii : ∀ {pos b}, s.byte? pos = some b → Byte.Inline b → P pos → P (pos + 1)
  /-- It is kept over a character other than the newline. -/
  char : ∀ {pos b}, s.byte? pos = some b → b ≠ Byte.newline → P pos →
    P (pos + s.charWidth narrow pos)

/-- A property of addresses that every scan of the script keeps. -/
structure Scans (s : Script) (P : Nat → Prop) : Prop extends s.LineScans false P where
  /-- It is kept over a newline. -/
  newline : ∀ {pos}, s.byte? pos = some Byte.newline → P pos → P (pos + 1)
  /-- It is kept over a character in narrow mode, too. -/
  narrowChar : ∀ {pos b}, s.byte? pos = some b → b ≠ Byte.newline → P pos →
    P (pos + s.charWidth true pos)

/-- Scans go forward, and stay inside the script. -/
theorem scans_inside (s : Script) (start : Nat) :
    s.Scans fun pos => start ≤ pos ∧ pos ≤ s.size where
  le := And.right
  ascii hb _ hpos := ⟨Nat.le_succ_of_le hpos.1, lt_size_of_byte? hb⟩
  char _ _ hpos := ⟨hpos.1.trans (Nat.le_add_right _ _), s.add_charWidth_le_size false hpos.2⟩
  newline hb hpos := ⟨Nat.le_succ_of_le hpos.1, lt_size_of_byte? hb⟩
  narrowChar _ _ hpos := ⟨hpos.1.trans (Nat.le_add_right _ _), s.add_charWidth_le_size true hpos.2⟩

/-- An ASCII character is one byte wide. -/
theorem charWidth_ascii {s : Script} {pos : Nat} {b : UInt8} (hb : s.byte? pos = some b)
    (hascii : b < 0x80) (narrow : Bool) : s.charWidth narrow pos = 1 := by
  have hlt : pos < s.bytes.size := lt_size_of_byte? hb
  rw [charWidth, Encoding.charWidth, show s.bytes[pos]? = some b from hb]
  simp only [s.encoding.width_ascii narrow hascii]
  omega

namespace LineScans

variable {s : Script} {narrow : Bool} {P : Nat → Prop} {pos : Nat} (h : s.LineScans narrow P)
include h

/-- A property that each inline byte carries on goes over a byte that was found. -/
theorem isAt {b : UInt8} (hat : s.isAt pos b = true) (hb : Byte.Inline b) (hpos : P pos) :
    P (pos + 1) :=
  h.ascii (beq_iff_eq.mp hat) hb hpos

/-- What is kept goes over a byte that an inline predicate holds of. -/
theorem holdsAt {p : UInt8 → Bool} (hat : s.holdsAt pos p = true)
    (hp : ∀ b, p b = true → Byte.Inline b) (hpos : P pos) : P (pos + 1) := by
  obtain ⟨b, hb, hholds⟩ := (Option.any_eq_true _ _).mp hat
  exact h.ascii hb (hp b hholds) hpos

/-- What is kept goes over the bytes that an inline predicate holds of. -/
theorem advanceWhile {p : UInt8 → Bool} (hp : ∀ b, p b = true → Byte.Inline b) (hpos : P pos) :
    P (s.advanceWhile p pos) := by
  fun_induction Script.advanceWhile s p pos with
  | case1 pos hlt hholds ih =>
    exact ih (h.ascii (Array.getElem?_eq_getElem hlt) (hp _ hholds) hpos)
  | case2 | case3 => exact hpos

/-- What is kept goes over characters up to a stop, if a newline is one. -/
theorem advanceChars {stop : UInt8 → Bool} (hnewline : stop Byte.newline = true) (hpos : P pos) :
    P (s.advanceChars narrow stop pos) := by
  fun_induction Script.advanceChars s narrow stop pos with
  | case1 | case3 => exact hpos
  | case2 pos hlt hstop ih =>
    refine ih (h.char (Array.getElem?_eq_getElem hlt) (fun hb => ?_) hpos)
    rw [hb] at hstop
    exact hstop hnewline

/-- What is kept goes over blanks. -/
theorem skipBlanks (hpos : P pos) : P (s.skipBlanks pos) :=
  h.advanceWhile (fun _ => Byte.inline_of_isBlank) hpos

/-- What is kept goes over an optional byte. -/
theorem eat {b : UInt8} (hb : Byte.Inline b) (hpos : P pos) : P (s.eat b pos) := by
  rw [Script.eat]
  split
  · next hat => exact h.isAt hat hb hpos
  · exact hpos

/-- What is kept goes over a token that was found. -/
theorem startsWith {token : Bytes} (htoken : ∀ b ∈ token, Byte.Inline b)
    (hat : s.startsWith token pos = true) (hpos : P pos) : P (pos + token.length) := by
  induction token generalizing pos with
  | nil => exact hpos
  | cons b token ih =>
    obtain ⟨hb, hrest⟩ := List.forall_mem_cons.mp htoken
    rw [Script.startsWith, Bool.and_eq_true] at hat
    rw [List.length_cons, Nat.add_comm token.length, ← Nat.add_assoc]
    exact ih hrest hat.2 (h.isAt hat.1 hb hpos)

/-- What is kept goes over a word that was found. -/
theorem startsWithWord {word : Bytes} (hword : ∀ b ∈ word, Byte.Inline b)
    (hat : s.startsWithWord word pos = true) (hpos : P pos) : P (pos + word.length) := by
  induction word generalizing pos with
  | nil => exact hpos
  | cons b word ih =>
    obtain ⟨hb, hrest⟩ := List.forall_mem_cons.mp hword
    rw [Script.startsWithWord, Bool.and_eq_true] at hat
    rw [List.length_cons, Nat.add_comm word.length, ← Nat.add_assoc]
    have hnext := h.holdsAt hat.1 (fun c hc => Byte.inline_of_lower_eq (beq_iff_eq.mp hc) hb) hpos
    exact ih hrest hat.2 hnext

/-- What is kept goes over a name that was found. -/
theorem name? {name : String} {after : Nat} (hfound : s.name? pos = some (name, after))
    (hpos : P pos) : P after := by
  obtain ⟨-, hname⟩ := Option.ite_none_right_eq_some.mp hfound
  cases hname
  exact h.advanceWhile (fun _ => Byte.inline_of_isNameByte) hpos

/-- What is kept goes over an optional name. -/
theorem getD_name? (hpos : P pos) : P ((s.name? pos).getD ("", pos)).2 := by
  cases hname : s.name? pos with
  | none => exact hpos
  | some found =>
    obtain ⟨name, after⟩ := found
    exact h.name? hname hpos

/-! ## Statements -/

/-- What is kept goes over the rest of a statement. -/
theorem skipStatement (hpos : P pos) : P (s.skipStatement narrow pos) := by
  rw [Script.skipStatement]
  generalize false = quoted
  fun_induction Script.skipStatementFrom s narrow quoted pos with
  | case1 | case4 => exact hpos
  | case2 quoted pos hlt _ _ hcolon =>
    have hbyte : s.bytes[pos] = Byte.colon := beq_iff_eq.mp (Bool.and_eq_true_iff.mp hcolon).1
    exact h.ascii (Array.getElem?_eq_getElem hlt) (by rw [hbyte]; decide) hpos
  | case3 quoted pos hlt b hnewline _ ih =>
    exact ih (h.char (Array.getElem?_eq_getElem hlt) (fun hb => hnewline (beq_iff_eq.mpr hb)) hpos)

/-- What is kept goes over the separators before a statement. -/
theorem skipSeparators {addr : Nat} (haddr : P addr) :
    P (s.skipSeparators (min addr s.size)) := by
  rw [Nat.min_eq_left (h.le haddr)]
  refine h.advanceWhile (fun b hb => ?_) haddr
  rcases Bool.or_eq_true_iff.mp hb with hblank | hcolon
  · exact Byte.inline_of_isBlank hblank
  · exact beq_iff_eq.mp hcolon ▸ by decide

/-! ## Elements of text -/

private theorem hexPair? {value : UInt8} (hfound : s.hexPair? pos = some value) (hpos : P pos) :
    P (pos + 2) := by
  obtain ⟨b, hb, hfound⟩ := Option.bind_eq_some_iff.mp hfound
  obtain ⟨high, hdigit, hfound⟩ := Option.bind_eq_some_iff.mp hfound
  obtain ⟨b', hb', hfound⟩ := Option.bind_eq_some_iff.mp hfound
  obtain ⟨low, hdigit', -⟩ := Option.bind_eq_some_iff.mp hfound
  have hsome : ∀ {b : UInt8} {n : Nat}, Byte.hexDigit? b = some n → Byte.Inline b := fun hn =>
    Byte.inline_of_hexDigit? (Option.isSome_of_eq_some hn)
  exact h.ascii hb' (hsome hdigit') (h.ascii hb (hsome hdigit) hpos)

/-- What is kept goes over a colour that was found. -/
theorem colour? {piece : TextPiece} (hfound : s.colour? pos = some piece) (hpos : P (pos + 1)) :
    P (pos + 7) := by
  obtain ⟨red, hred, hfound⟩ := Option.bind_eq_some_iff.mp hfound
  obtain ⟨green, hgreen, hfound⟩ := Option.bind_eq_some_iff.mp hfound
  obtain ⟨blue, hblue, -⟩ := Option.bind_eq_some_iff.mp hfound
  exact h.hexPair? hblue (h.hexPair? hgreen (h.hexPair? hred hpos))

/-- What is kept goes over an inline command that was found. -/
theorem inlineCommand? {piece : TextPiece} {after : Nat}
    (hfound : s.inlineCommand? pos = some (piece, after)) (hpos : P (pos + 1)) : P after := by
  obtain ⟨kind, hkind, hfound⟩ := Option.bind_eq_some_iff.mp hfound
  have hnumber : Byte.Inline kind → P (s.advanceWhile Byte.isDigit (pos + 2)) := fun hinline =>
    h.advanceWhile (fun _ => Byte.inline_of_isDigit) (h.ascii hkind hinline hpos)
  dsimp only at hfound
  split at hfound
  · next hdefault =>
    cases hfound
    obtain ⟨hspeed, hat⟩ := Bool.and_eq_true_iff.mp hdefault
    have hstart := h.ascii hkind (beq_iff_eq.mp hspeed ▸ by decide) hpos
    exact h.isAt hat (by decide) hstart
  · obtain ⟨_, _, hfound⟩ := Option.bind_eq_some_iff.mp hfound
    split_ifs at hfound with hwait hdelay hspeed
    · cases hfound
      exact hnumber (beq_iff_eq.mp hwait ▸ by decide)
    · cases hfound
      exact hnumber (beq_iff_eq.mp hdelay ▸ by decide)
    · cases hfound
      exact hnumber (beq_iff_eq.mp hspeed ▸ by decide)

end LineScans

/-- The tag at an address is read in steps of whole characters, whatever the mode. -/
theorem LineScans.tagAt {s : Script} {P : Nat → Prop} {pos : Nat} (h : s.LineScans false P)
    (hpos : P pos) (hat : s.byte? pos = some Byte.leftBracket) :
    P (s.tagAt pos).start ∧ P (s.tagAt pos).next := by
  have hopen : P (pos + 1) := h.ascii hat (by decide) hpos
  have hstop : P (s.advanceChars false (fun b => b == Byte.newline || b == Byte.rightBracket)
      (pos + 1)) := h.advanceChars rfl hopen
  rw [Script.tagAt]
  split
  · next hclosed => exact ⟨hpos, h.isAt hclosed (by decide) hstop⟩
  · exact ⟨hpos, hstop⟩

namespace Scans

variable {s : Script} {P : Nat → Prop} {pos : Nat} (h : s.Scans P)
include h

/-- What is kept over newlines is kept without them, in both modes. -/
theorem line (narrow : Bool) : s.LineScans narrow P := by
  cases narrow with
  | false => exact h.toLineScans
  | true => exact ⟨h.le, h.ascii, h.narrowChar⟩

/-- What every scan keeps goes over characters, wherever they stop. -/
theorem advanceChars (narrow : Bool) (stop : UInt8 → Bool) (hpos : P pos) :
    P (s.advanceChars narrow stop pos) := by
  fun_induction Script.advanceChars s narrow stop pos with
  | case1 | case3 => exact hpos
  | case2 pos hlt hstop ih =>
    have hb : s.byte? pos = some s.bytes[pos] := Array.getElem?_eq_getElem hlt
    refine ih ?_
    by_cases hnewline : s.bytes[pos] = Byte.newline
    · rw [charWidth_ascii hb (by rw [hnewline]; decide)]
      exact h.newline (hnewline ▸ hb) hpos
    · exact (h.line narrow).char hb hnewline hpos

/-- A statement starts and goes on where a scan can come to. -/
theorem statementAt {addr : Nat} (haddr : P addr) (tags : Bool) :
    P (s.statementAt addr tags).start ∧ P (s.statementAt addr tags).next := by
  have hstart := h.skipSeparators haddr
  rw [Script.statementAt]
  generalize s.skipSeparators (min addr s.size) = start at hstart
  split
  · exact ⟨hstart, hstart⟩
  · next b hb =>
    have hnext : ∀ c : UInt8, Byte.Inline c → (b == c) = true → P (start + 1) := by
      intro c hc hbc
      exact h.ascii hb (beq_iff_eq.mp hbc ▸ hc) hstart
    -- One case for each kind of statement, in the order in which they are told apart.
    repeat' split
    · next hnewline => exact ⟨hstart, h.newline (beq_iff_eq.mp hnewline ▸ hb) hstart⟩
    · exact ⟨hstart, h.advanceChars _ _ hstart⟩
    · next hlabel _ name after hname =>
      have hafter : P ((s.name? (start + 1)).getD ("", start + 1)).2 :=
        h.getD_name? (hnext _ (by decide) (Bool.and_eq_true_iff.mp hlabel).1)
      rw [hname] at hafter
      exact ⟨hstart, h.advanceChars _ _ hafter⟩
    · next htilde => exact ⟨hstart, hnext _ (by decide) htilde⟩
    · next htag =>
      have hbracket := beq_iff_eq.mp (Bool.and_eq_true_iff.mp htag).1
      exact h.tagAt hstart (hbracket ▸ hb)
    · next hforced =>
      have hword := hnext _ (by decide) (Bool.and_eq_true_iff.mp hforced).1
      exact ⟨hstart, h.getD_name? hword⟩
    · exact ⟨hstart, h.getD_name? hstart⟩
    · exact ⟨hstart, hstart⟩
    · exact ⟨hstart, hstart⟩

/-- What every scan keeps holds of the section after a position. -/
theorem sectionAfter? {target : Nat} (hfound : s.sectionAfter? pos = some target)
    (hpos : P pos) : P target := by
  obtain ⟨hat, htarget⟩ := Option.ite_none_right_eq_some.mp hfound
  cases htarget
  exact h.isAt hat (by decide) (h.advanceChars _ _ hpos)

end Scans

end Script

end NovelScript
