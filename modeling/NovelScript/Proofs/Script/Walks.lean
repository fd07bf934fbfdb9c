import NovelScript.Proofs.Script.Scanning

/-!
# Walking over whole characters

The end of a line is found byte by byte, while most scans step over whole characters. The two agree
only if no character on the way reaches over the newline. A walk comes to the addresses that a scan
in steps of characters can come to, and a line is whole from an address on if the walk from there
does not pass its end. Reading to the end of the line in steps of characters tells whether it is.

In narrow mode every line of the double-byte encoding is whole, and the rest of a line that is well
formed is whole in either encoding.
-/

namespace NovelScript.Script

/-- The addresses that a walk over whole characters comes to, up to the first newline. -/
inductive Walks (s : Script) (narrow : Bool) (start : Nat) : Nat → Prop
  /-- The walk begins at `start`. -/
  | start : Walks s narrow start start
  /-- It goes on behind a character other than the newline. -/
  | char {pos : Nat} {b : UInt8} : Walks s narrow start pos → s.byte? pos = some b →
      b ≠ Byte.newline → Walks s narrow start (pos + s.charWidth narrow pos)

/-- The walk from `start` stays on the line. -/
def Whole (s : Script) (narrow : Bool) (start : Nat) : Prop :=
  ∀ pos, s.Walks narrow start pos → pos ≤ s.lineEnd start

variable {s : Script} {narrow : Bool} {start pos : Nat} {b : UInt8}

/-- An address on the line whose byte is not the newline is before the end of the line. -/
theorem lt_lineEnd (hle : pos ≤ s.lineEnd start) (hb : s.byte? pos = some b)
    (hnewline : b ≠ Byte.newline) : pos < s.lineEnd start := by
  rcases Nat.eq_or_lt_of_le hle with rfl | hlt
  · have hat := isAt_lineEnd (lt_size_of_byte? hb)
    rw [isAt, hb, beq_iff_eq, Option.some.injEq] at hat
    exact absurd hat hnewline
  · exact hlt

/-- Before the end of the line there is a byte, and it is not the newline. -/
theorem byte?_of_lt_lineEnd (hstart : start ≤ pos) (hlt : pos < s.lineEnd start) :
    ∃ b, s.byte? pos = some b ∧ b ≠ Byte.newline := by
  have hsize : s.lineEnd start ≤ s.size := advanceWhile_le_size s _ (Nat.min_le_right _ _)
  have hpos : pos < s.bytes.size := Nat.lt_of_lt_of_le hlt hsize
  have hplain := sameLine_lineEnd (show start ≤ s.size by omega) pos hstart hlt
  refine ⟨s.bytes[pos], Array.getElem?_eq_getElem hpos, fun hb => ?_⟩
  rw [isAt, byte?, Array.getElem?_eq_getElem hpos, hb] at hplain
  simp at hplain

namespace Walks

private theorem le (h : s.Walks narrow start pos) : start ≤ pos := by
  induction h with
  | start => exact Nat.le_refl _
  | char _ _ _ ih => omega

private theorem le_size (hstart : start ≤ s.size) (h : s.Walks narrow start pos) :
    pos ≤ s.size := by
  induction h with
  | start => exact hstart
  | char _ _ _ ih => exact s.add_charWidth_le_size narrow ih

/-- Wherever the walk has come to, reading on to the newline ends at the same address. -/
theorem skipToLineEnd_eq (h : s.Walks narrow start pos) :
    s.skipToLineEnd narrow pos = s.skipToLineEnd narrow start := by
  induction h with
  | start => rfl
  | @char pos b _ hb hnewline ih =>
    have hlt : pos < s.bytes.size := lt_size_of_byte? hb
    have hbyte : s.bytes[pos] = b := Option.some.inj ((Array.getElem?_eq_getElem hlt).symm.trans hb)
    rw [← ih, skipToLineEnd, skipToLineEnd, advanceChars.eq_1 s narrow _ pos, dif_pos hlt,
      if_neg (by simpa [hbyte] using hnewline)]

end Walks

/-- Scans that do not pass over newlines come to addresses of the walk. -/
theorem lineScans_walks (hstart : start ≤ s.size) (narrow : Bool) :
    s.LineScans narrow (s.Walks narrow start) where
  le h := h.le_size hstart
  ascii := by
    intro pos b hb hinline hpos
    rw [← charWidth_ascii hb hinline.1 narrow]
    exact hpos.char hb hinline.2
  char hb hnewline hpos := hpos.char hb hnewline

/-- **Reading to the newline in steps of characters stays on the line exactly if the line is
whole.** -/
theorem skipToLineEnd_le_lineEnd_iff (hstart : start ≤ s.size) :
    s.skipToLineEnd narrow start ≤ s.lineEnd start ↔ s.Whole narrow start := by
  constructor
  · intro h pos hpos
    have hle : pos ≤ s.skipToLineEnd narrow pos := le_advanceChars s narrow _ pos
    rw [hpos.skipToLineEnd_eq] at hle
    omega
  · intro h
    exact h _ ((lineScans_walks hstart narrow).advanceChars rfl .start)

/-! ## Lines that are whole -/

/-- The width of a character, by the byte it starts with. -/
theorem charWidth_of_byte? (hb : s.byte? pos = some b) :
    s.charWidth narrow pos = min (s.encoding.width narrow b) (s.size - pos) := by
  rw [charWidth, Encoding.charWidth, show s.bytes[pos]? = some b from hb]
  rfl

/-- In UTF-8 the mode makes no difference. -/
theorem charWidth_utf8 (h : s.encoding = .utf8) (narrow narrow' : Bool) (pos : Nat) :
    s.charWidth narrow pos = s.charWidth narrow' pos := by
  rw [charWidth, charWidth, h]
  rfl

private theorem walks_utf8 (h : s.encoding = .utf8) (narrow' : Bool)
    (hpos : s.Walks narrow start pos) : s.Walks narrow' start pos := by
  induction hpos with
  | start => exact .start
  | char _ hb hnewline ih =>
    rw [charWidth_utf8 h narrow narrow']
    exact ih.char hb hnewline

/-- In narrow mode a character of the double-byte encoding is one byte. -/
theorem charWidth_narrow (h : s.encoding = .shiftJis) (hb : s.byte? pos = some b) :
    s.charWidth true pos = 1 := by
  have hlt := lt_size_of_byte? hb
  rw [charWidth_of_byte? hb, h]
  simp only [Encoding.width, Bool.not_true, Bool.false_and, Bool.false_eq_true, if_false]
  omega

/-- The narrow walk comes to every address of the line. -/
theorem walks_narrow_iff (h : s.encoding = .shiftJis) (hstart : start ≤ s.size) :
    s.Walks true start pos ↔ start ≤ pos ∧ pos ≤ s.lineEnd start := by
  constructor
  · intro hpos
    induction hpos with
    | start => exact ⟨Nat.le_refl _, le_lineEnd hstart⟩
    | char _ hb hnewline ih =>
      have hlt := lt_lineEnd ih.2 hb hnewline
      rw [charWidth_narrow h hb]
      omega
  · rintro ⟨hle, hpos⟩
    obtain ⟨n, rfl⟩ := Nat.exists_eq_add_of_le hle
    induction n with
    | zero => exact .start
    | succ n ih =>
      have hlt : start + n < s.lineEnd start := hpos
      obtain ⟨b, hb, hnewline⟩ := byte?_of_lt_lineEnd (Nat.le_add_right start n) hlt
      have hnext := (ih (by omega) (by omega)).char hb hnewline
      rwa [charWidth_narrow h hb] at hnext

/-- What is whole in steps of characters is whole in narrow mode. -/
theorem Whole.of_wide (hstart : start ≤ s.size) (h : s.Whole false start) (narrow : Bool) :
    s.Whole narrow start := by
  intro pos hpos
  cases henc : s.encoding with
  | utf8 => exact h pos (walks_utf8 henc false hpos)
  | shiftJis =>
    cases narrow with
    | false => exact h pos hpos
    | true => exact ((walks_narrow_iff henc hstart).mp hpos).2

/-- Every address of the line is on the wide walk or behind a lead byte that is. -/
theorem walks_or_behind (h : s.encoding = .shiftJis) (hle : start ≤ pos)
    (hpos : pos ≤ s.lineEnd start) :
    s.Walks false start pos ∨
      ∃ lead, lead + 1 = pos ∧ s.Walks false start (lead + 2) := by
  obtain ⟨n, rfl⟩ := Nat.exists_eq_add_of_le hle
  induction n with
  | zero => exact .inl .start
  | succ n ih =>
    rcases ih (by omega) (by omega) with hwalk | ⟨lead, hlead, hwalk⟩
    · have hline : start + n < s.lineEnd start := hpos
      obtain ⟨b, hb, hnewline⟩ := byte?_of_lt_lineEnd (Nat.le_add_right start n) hline
      have hnext := hwalk.char hb hnewline
      have hwidth : s.charWidth false (start + n) =
          min (s.encoding.width false b) (s.size - (start + n)) := charWidth_of_byte? hb
      have hlt := lt_size_of_byte? hb
      have hcases : s.encoding.width false b = 1 ∨ s.encoding.width false b = 2 := by
        rw [h, Encoding.width]
        split <;> omega
      by_cases hone : s.charWidth false (start + n) = 1
      · rw [hone] at hnext
        exact .inl hnext
      · have htwo : s.charWidth false (start + n) = 2 := by omega
        rw [htwo] at hnext
        exact .inr ⟨start + n, rfl, hnext⟩
    · left
      have hpos : lead + 2 = start + (n + 1) := by omega
      rwa [hpos] at hwalk

/-- Behind an ASCII byte the walks of both modes meet. -/
theorem Walks.meet (hstart : start ≤ s.size) (hwhole : s.Whole false start)
    (hpos : s.Walks narrow start pos) (hb : s.byte? pos = some b) (hinline : Byte.Inline b)
    (narrow' : Bool) : s.Walks narrow' start (pos + 1) := by
  have hnext : s.Walks narrow start (pos + 1) := (lineScans_walks hstart narrow).ascii hb hinline hpos
  cases henc : s.encoding with
  | utf8 => exact walks_utf8 henc narrow' hnext
  | shiftJis =>
    have hline := hwhole.of_wide hstart narrow _ hnext
    cases narrow' with
    | true => exact (walks_narrow_iff henc hstart).mpr ⟨hnext.le, hline⟩
    | false =>
      rcases walks_or_behind henc hpos.le (by omega) with hwalk | ⟨lead, rfl, hwalk⟩
      · exact (lineScans_walks hstart false).ascii hb hinline hwalk
      · exact hwalk

/-- A slice from further on is the rest of the slice. -/
theorem slice_add (s : Script) (start n stop : Nat) :
    s.slice (start + n) stop = (s.slice start stop).drop n := by
  simp only [slice, Array.toList_extract, List.extract_eq_take_drop, List.drop_take, List.drop_drop]
  congr 1
  omega

/-- A slice inside the script is as long as its bounds are apart. -/
theorem length_slice {stop : Nat} (h : stop ≤ s.size) :
    (s.slice start stop).length = stop - start := by
  simp only [slice, Array.length_toList, Array.size_extract]
  unfold size at h
  omega

/-- A slice that is not empty begins with the byte at its start. -/
theorem slice_eq_cons {stop : Nat} (hb : s.byte? pos = some b) (hlt : pos < stop) :
    s.slice pos stop = b :: s.slice (pos + 1) stop := by
  obtain ⟨n, rfl⟩ := Nat.exists_eq_add_of_lt hlt
  rw [byte?_eq_head?] at hb
  obtain ⟨tail, htail⟩ := List.head?_eq_some_iff.mp hb
  rw [slice_add, Nat.add_assoc, slice_eq_take, htail, List.take_succ_cons]
  rfl

/-- **The rest of a line is whole if it is well formed.** -/
theorem whole_of_wellFormed (hstart : start ≤ s.size)
    (h : s.encoding.WellFormed (s.slice start (s.lineEnd start))) (narrow : Bool) :
    s.Whole narrow start := by
  refine Whole.of_wide hstart (fun pos hpos => ?_) narrow
  -- The walk never leaves the line, and what is left of the line is always well formed.
  suffices hline : pos ≤ s.lineEnd start ∧
      s.encoding.WellFormed (s.slice pos (s.lineEnd start)) from hline.1
  induction hpos with
  | start => exact ⟨le_lineEnd hstart, h⟩
  | @char pos b _ hb hnewline ih =>
    obtain ⟨hle, hrest⟩ := ih
    have hlt := lt_lineEnd hle hb hnewline
    have hsize : s.lineEnd start ≤ s.size := advanceWhile_le_size s _ (Nat.min_le_right _ _)
    rw [slice_eq_cons hb hlt] at hrest
    obtain ⟨hwidth, hdrop⟩ := hrest.first
    rw [length_slice hsize] at hwidth
    have hchar : s.charWidth false pos = s.encoding.width false b := by
      rw [charWidth_of_byte? hb]
      omega
    rw [hchar, slice_add, slice_eq_cons hb hlt]
    exact ⟨by omega, hdrop⟩

end NovelScript.Script
