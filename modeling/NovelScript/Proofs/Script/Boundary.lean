import NovelScript.Proofs.Label
import NovelScript.Proofs.Script.Bounds
import NovelScript.Proofs.Text.Characters

/-!
# Addresses where a character begins

In a script that is UTF-8 text, an address is a boundary if the bytes before it and the bytes from
it on are texts. All that matters for this is the byte at the address. Every scan from a boundary
comes to a boundary, lines and labels start at boundaries wherever one looks for them from, and the
bytes between two boundaries are a text.
-/

namespace NovelScript.Script

open NovelScript.Bytes

/-- The script is UTF-8 text, and is read as such. -/
structure Legible (s : Script) : Prop where
  /-- It is read as UTF-8. -/
  encoding : s.encoding = .utf8
  /-- It is a text. -/
  text : IsText s.bytes.toList

/-- A character begins at the address, or the script ends there: the bytes before it and the bytes
from it on are texts. -/
structure Boundary (s : Script) (pos : Nat) : Prop where
  /-- It is an address of the script. -/
  le : pos ≤ s.size
  /-- What comes before it is a text. -/
  before : IsText (s.slice 0 pos)
  /-- What begins at it is a text. -/
  ahead : IsText (s.ahead pos)

variable {s : Script} {pos : Nat}

/-- A slice and what follows it make up what is ahead. -/
theorem slice_append_ahead (s : Script) (start n : Nat) :
    s.slice start (start + n) ++ s.ahead (start + n) = s.ahead start := by
  rw [slice_eq_take, ahead_add, List.take_append_drop]

private theorem startsWithWord_append (s : Script) (front back : Bytes) (pos : Nat) :
    s.startsWithWord (front ++ back) pos =
      (s.startsWithWord front pos && s.startsWithWord back (pos + front.length)) := by
  induction front generalizing pos with
  | nil => simp [startsWithWord]
  | cons b front ih =>
    rw [List.cons_append, startsWithWord, startsWithWord, ih, Bool.and_assoc, List.length_cons,
      Nat.add_assoc, Nat.add_comm 1]

/-- A token that stands somewhere also does so in lower case. -/
theorem startsWithWord_of_startsWith {token : Bytes} (h : s.startsWith token pos = true) :
    s.startsWithWord token pos = true := by
  induction token generalizing pos with
  | nil => rfl
  | cons b token ih =>
    rw [startsWith, Bool.and_eq_true] at h
    rw [startsWithWord, Bool.and_eq_true]
    refine ⟨?_, ih h.2⟩
    rw [holdsAt, beq_iff_eq.mp h.1]
    exact beq_self_eq_true _

/-- What stands between two boundaries is a text. -/
theorem isText_slice {start stop : Nat} (hstart : s.Boundary start) (hstop : s.Boundary stop) :
    IsText (s.slice start stop) := by
  by_cases hle : start ≤ stop
  · obtain ⟨n, rfl⟩ := Nat.exists_eq_add_of_le hle
    have htext := hstart.ahead
    rw [← s.slice_append_ahead start n] at htext
    exact (htext.cut hstop.ahead.firstByte).1
  · rw [slice, Array.extract_empty_of_stop_le_start (Nat.le_of_not_le hle)]
    exact isText_nil

section Legible

variable (h : s.Legible)
include h

/-- The byte at an address tells whether a character begins there. -/
theorem boundary_iff :
    s.Boundary pos ↔ pos ≤ s.size ∧ ∀ b ∈ s.byte? pos, b.IsUTF8FirstByte := by
  rw [byte?_eq_head?]
  constructor
  · exact fun hpos => ⟨hpos.le, hpos.ahead.firstByte⟩
  · rintro ⟨hle, hfirst⟩
    have hsplit := s.slice_append_ahead 0 pos
    rw [Nat.zero_add] at hsplit
    have htext : IsText (s.ahead 0) := h.text
    rw [← hsplit] at htext
    obtain ⟨hbefore, hahead⟩ := htext.cut hfirst
    exact ⟨hle, hbefore, hahead⟩

/-- A character begins at every ASCII byte. -/
theorem boundary_of_ascii {b : UInt8} (hb : s.byte? pos = some b) (hascii : b < 0x80) :
    s.Boundary pos := by
  refine (boundary_iff h).mpr ⟨Nat.le_of_lt (lt_size_of_byte? hb), fun c hc => ?_⟩
  cases hb.symm.trans hc
  exact firstByte_of_ascii hascii

/-- The start of the script is a boundary. -/
theorem boundary_zero : s.Boundary 0 :=
  ⟨Nat.zero_le _, by rw [slice, Array.extract_zero]; exact isText_nil, h.text⟩

private theorem boundary_size : s.Boundary s.size := by
  refine (boundary_iff h).mpr ⟨Nat.le_refl _, fun b hb => ?_⟩
  exact absurd (lt_size_of_byte? hb) (Nat.lt_irrefl _)

/-- A character is as wide as its first byte says, and the next one begins behind it. -/
theorem Boundary.width {b : UInt8} (hpos : s.Boundary pos) (hb : s.byte? pos = some b)
    (narrow : Bool) :
    s.charWidth narrow pos = Encoding.utf8.width narrow b ∧
      s.Boundary (pos + Encoding.utf8.width narrow b) := by
  have htext := hpos.ahead
  obtain ⟨tail, htail⟩ : ∃ tail, s.ahead pos = b :: tail := by
    rw [byte?_eq_head?] at hb
    exact List.head?_eq_some_iff.mp hb
  rw [htail] at htext
  obtain ⟨rest, behind, rfl, -, hbehind, hwidth⟩ := htext.cons
  have hfront : s.ahead pos = (b :: rest) ++ behind := htail
  have hsize := s.length_ahead pos
  rw [hfront, List.length_append, List.length_cons] at hsize
  constructor
  · rw [charWidth, Encoding.charWidth, show s.bytes[pos]? = some b from hb, h.encoding]
    show min (Encoding.utf8.width narrow b) (s.size - pos) = Encoding.utf8.width narrow b
    rw [hwidth]
    omega
  · rw [hwidth, ← List.length_cons (a := b), boundary_iff h, byte?_eq_head?,
      ahead_add_length hfront, List.length_cons]
    exact ⟨by omega, hbehind.firstByte⟩

/-- The next character begins where the width of this one says. -/
theorem Boundary.char (hpos : s.Boundary pos) (narrow : Bool) :
    s.Boundary (pos + s.charWidth narrow pos) := by
  cases hb : s.byte? pos with
  | none =>
    have hwidth : s.charWidth narrow pos = 0 := by
      rw [charWidth, Encoding.charWidth, show s.bytes[pos]? = none from hb]
    rwa [hwidth]
  | some b =>
    obtain ⟨hwidth, hnext⟩ := hpos.width h hb narrow
    rwa [hwidth]

private theorem Boundary.ascii {b : UInt8} (hpos : s.Boundary pos) (hb : s.byte? pos = some b)
    (hascii : b < 0x80) : s.Boundary (pos + 1) := by
  have hnext := hpos.char h false
  rwa [charWidth_ascii hb hascii] at hnext

/-- **Scans go from boundary to boundary.** -/
theorem scans_boundary : s.Scans s.Boundary where
  le := Boundary.le
  ascii hb hinline hpos := hpos.ascii h hb hinline.1
  char _ _ hpos := hpos.char h false
  newline hb hpos := hpos.ascii h hb (by decide)
  narrowChar _ _ hpos := hpos.char h true

/-- A character begins behind a word that is a text, in whatever case the script has it. -/
theorem boundary_startsWithWord {word : Bytes} (hword : word.IsText) (hpos : s.Boundary pos)
    (hat : s.startsWithWord word pos = true) : s.Boundary (pos + word.length) := by
  obtain ⟨chars, rfl⟩ := isText_iff.mp hword
  clear hword
  induction chars generalizing pos with
  | nil => exact hpos
  | cons c chars ih =>
    obtain ⟨first, rest, hc⟩ := exists_encodeChar_eq c
    rw [List.flatMap_cons, startsWithWord_append, Bool.and_eq_true] at hat
    rw [List.flatMap_cons, List.length_append, ← Nat.add_assoc]
    refine ih ?_ hat.2
    rw [hc] at hat ⊢
    obtain ⟨b, hb, hlower⟩ := (Option.any_eq_true _ _).mp (Bool.and_eq_true_iff.mp hat.1).1
    have hwidth : Encoding.utf8.width false b = rest.length + 1 := by
      rw [← Encoding.width_lower, beq_iff_eq.mp hlower, Encoding.width_lower,
        Encoding.width_of_encodeChar hc]
    obtain ⟨-, hnext⟩ := hpos.width h hb false
    rwa [hwidth] at hnext

/-! ## Lines -/

private theorem boundary_of_isLineStart (hline : s.IsLineStart pos) : s.Boundary pos := by
  rcases hline with rfl | hnewline
  · exact boundary_zero h
  · have hat : s.byte? (pos - 1) = some Byte.newline := beq_iff_eq.mp hnewline
    have hbefore : s.Boundary (pos - 1) := boundary_of_ascii h hat (by decide)
    have hnext := hbefore.ascii h hat (by decide)
    cases pos with
    | zero => exact boundary_zero h
    | succ pos => exact hnext

/-- The start of a line is a boundary. -/
theorem boundary_lineStart (pos : Nat) : s.Boundary (s.lineStart pos) :=
  boundary_of_isLineStart h (isLineStart_lineStart s pos)

/-- So is its end. -/
theorem boundary_lineEnd (pos : Nat) : s.Boundary (s.lineEnd pos) := by
  rcases Nat.lt_or_ge (s.lineEnd pos) s.size with hlt | hge
  · exact boundary_of_ascii h (beq_iff_eq.mp (isAt_lineEnd hlt)) (by decide)
  · rw [Nat.le_antisymm (s.lineEnd_le_size pos) hge]
    exact boundary_size h

private theorem boundary_nextLine (pos : Nat) : s.Boundary (s.nextLine pos) := by
  rw [nextLine]
  split
  · next hlt => exact (scans_boundary h).newline (beq_iff_eq.mp (isAt_lineEnd hlt)) (boundary_lineEnd h pos)
  · exact boundary_lineEnd h pos

/-- A number of lines further down there is a boundary. -/
theorem boundary_linesDown {count : Nat} (hpos : s.Boundary pos) :
    s.Boundary (s.linesDown count pos) := by
  induction count generalizing pos with
  | zero => exact hpos
  | succ count ih =>
    rw [linesDown]
    split
    · exact hpos
    · exact ih (boundary_nextLine h pos)

/-- So is there a number of lines further up. -/
theorem boundary_linesUp? {count target : Nat} (hpos : s.Boundary pos)
    (htarget : s.linesUp? count pos = some target) : s.Boundary target := by
  induction count generalizing pos with
  | zero =>
    cases htarget
    exact hpos
  | succ count ih =>
    obtain ⟨-, hup⟩ := Option.ite_none_left_eq_some.mp htarget
    exact ih (boundary_lineStart h _) hup

/-- Every label of the script starts on a boundary. -/
theorem boundary_label {name : String} {label : Label}
    (hlabel : (LabelTable.build s).1.byName name = .ok label) : s.Boundary label.start :=
  boundary_of_isLineStart h (LabelTable.stands_of_mem_build (LabelTable.mem_of_byName hlabel)).start

/-! ## Loops -/

/-- The end of a loop is at boundaries. -/
theorem boundary_loopEndWithin {statements depth addr : Nat} {found : LoopEnd}
    (haddr : s.Boundary addr) (hfound : s.loopEndWithin statements depth addr = some found) :
    s.Boundary found.start ∧ s.Boundary found.after := by
  have hscans := scans_boundary h
  fun_induction loopEndWithin s statements depth addr with
  | case1 | case2 => cases hfound
  | case3 statements depth addr statement word hkind after hword ih =>
    exact ih (hscans.skipStatement (hscans.statementAt haddr false).2) hfound
  | case4 statements addr statement word hkind after hfor hnext =>
    cases hfound
    obtain ⟨hstart, hafter⟩ := hscans.statementAt haddr false
    exact ⟨hstart, hscans.skipStatement hafter⟩
  | case5 statements addr statement word hkind after hfor hnext depth ih =>
    exact ih (hscans.skipStatement (hscans.statementAt haddr false).2) hfound
  | case6 statements depth addr statement word hkind after hfor hnext ih =>
    exact ih (hscans.skipStatement (hscans.statementAt haddr false).2) hfound
  | case7 statements depth addr statement hkind ih => exact ih (boundary_lineEnd h _) hfound
  | case8 statements depth addr statement _ _ _ ih =>
    exact ih (hscans.statementAt haddr false).2 hfound

/-- A `next` found from a boundary starts on a boundary and ends on one. -/
theorem boundary_loopEnd {addr : Nat} {found : LoopEnd} (haddr : s.Boundary addr)
    (hfound : s.loopEnd addr = .ok found) : s.Boundary found.start ∧ s.Boundary found.after :=
  boundary_loopEndWithin h haddr (loopEndWithin_of_loopEnd hfound)

/-! ## Tags -/

/-- A tag in front of text is a text. -/
theorem isText_tag {addr : Nat} {tags : Bool} {tag : Bytes} (haddr : s.Boundary addr)
    (hkind : (s.statementAt addr tags).kind = .pretextTag tag) : tag.IsText := by
  have hscans := scans_boundary h
  have hstart := hscans.skipSeparators haddr
  rw [statementAt] at hkind
  generalize s.skipSeparators (min addr s.size) = start at hkind hstart
  split at hkind
  · cases hkind
  · next b hb =>
    repeat' split at hkind
    all_goals try cases hkind
    next htag =>
      have hbracket : b = Byte.leftBracket := beq_iff_eq.mp (Bool.and_eq_true_iff.mp htag).1
      have hopen : s.Boundary (start + 1) := hscans.ascii hb (hbracket ▸ by decide) hstart
      rw [tagAt] at hkind
      split at hkind
      all_goals
        cases hkind
        exact isText_slice hopen (hscans.advanceChars _ _ hopen)

end Legible

end NovelScript.Script
