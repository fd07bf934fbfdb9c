import NovelScript.Proofs.Script.Lines

/-!
# Line numbers

The lines of a script are numbered from zero, by the newlines before them. Numbers grow with
addresses, every number up to that of the last line belongs to one line, and there are as many of
them as the text has lines.
-/

namespace NovelScript

namespace Bytes

variable {bytes line rest : Bytes} {further : List Bytes}

/-- A source that is not empty has a line. -/
theorem lines_ne_nil (h : bytes ≠ []) : lines bytes ≠ [] := by
  cases bytes with
  | nil => exact absurd rfl h
  | cons b rest =>
    rw [lines]
    repeat' split
    all_goals exact List.cons_ne_nil _ _

/-- Only the empty source has no line. -/
theorem lines_eq_nil_iff : lines bytes = [] ↔ bytes = [] :=
  ⟨fun h => by_contra fun hne => lines_ne_nil hne h, fun h => by rw [h]; rfl⟩

/-- The first line of a text and what comes after it. -/
theorem lines_eq_cons (h : lines bytes = line :: further) :
    (∃ rest, bytes = line ++ Byte.newline :: rest ∧ further = lines rest) ∨
      (bytes = line ∧ further = []) := by
  induction bytes generalizing line with
  | nil => cases h
  | cons b rest ih =>
    rw [lines] at h
    split at h
    · next hb =>
      obtain ⟨rfl, rfl⟩ := List.cons.inj h
      exact .inl ⟨rest, by rw [beq_iff_eq.mp hb]; rfl, rfl⟩
    · split at h
      · next hrest =>
        obtain ⟨rfl, rfl⟩ := List.cons.inj h
        exact .inr ⟨by rw [lines_eq_nil_iff.mp hrest], rfl⟩
      · next line' further' hrest =>
        obtain ⟨rfl, rfl⟩ := List.cons.inj h
        rcases ih hrest with ⟨rest', rfl, hfurther⟩ | ⟨rfl, hfurther⟩
        · exact .inl ⟨rest', rfl, hfurther⟩
        · exact .inr ⟨rfl, hfurther⟩

/-- The first line goes up to the first newline. -/
theorem line_eq_takeWhile (h : lines bytes = line :: further) :
    line = bytes.takeWhile (· != Byte.newline) := by
  induction bytes generalizing line further with
  | nil => cases h
  | cons b rest ih =>
    rw [lines] at h
    by_cases hb : b = Byte.newline
    · subst hb
      obtain ⟨rfl, -⟩ := List.cons.inj h
      rfl
    · rw [if_neg (by simpa using hb)] at h
      rw [List.takeWhile_cons_of_pos (by simpa using hb)]
      cases hrest : lines rest with
      | nil =>
        rw [hrest] at h
        obtain ⟨rfl, -⟩ := List.cons.inj h
        rw [lines_eq_nil_iff.mp hrest]
        rfl
      | cons line' further' =>
        rw [hrest] at h
        obtain ⟨rfl, -⟩ := List.cons.inj h
        rw [ih hrest]

/-- A text has a line for each newline, and one more if it goes on after the last newline. -/
theorem length_lines (bytes : Bytes) : (lines bytes).length =
    bytes.count Byte.newline + if bytes.getLast?.any (· != Byte.newline) then 1 else 0 := by
  induction bytes with
  | nil => rfl
  | cons b rest ih =>
    rw [lines, List.count_cons]
    cases rest with
    | nil => by_cases hb : b = Byte.newline <;> simp [hb, lines]
    | cons c rest =>
      rw [List.getLast?_cons_cons]
      by_cases hb : b = Byte.newline
      · rw [if_pos (beq_iff_eq.mpr hb), List.length_cons, ih, if_pos (beq_iff_eq.mpr hb)]
        omega
      · rw [if_neg (by simpa using hb), if_neg (by simpa using hb), Nat.add_zero, ← ih]
        cases hrest : lines (c :: rest) with
        | nil => exact absurd (lines_eq_nil_iff.mp hrest) (List.cons_ne_nil _ _)
        | cons line further => rfl

end Bytes

namespace Script

variable {s : Script} {pos start stop number : Nat}

/-! ## Numbers and addresses -/

/-- The line with a number begins at an address. -/
structure LineAt (s : Script) (number pos : Nat) : Prop where
  /-- A line begins there. -/
  start : s.IsLineStart pos
  /-- It has a byte, if only its newline. -/
  lt_size : pos < s.size
  /-- There are as many newlines before. -/
  number : s.newlinesBetween 0 pos = number

/-- The further a range reaches, the more newlines it holds. -/
theorem newlinesBetween_mono (s : Script) (h : start ≤ stop) :
    s.newlinesBetween 0 start ≤ s.newlinesBetween 0 stop := by
  rw [newlinesBetween_add (Nat.zero_le start) h]
  exact Nat.le_add_right _ _

/-- There are more newlines before the start of a line than before an address above it. -/
theorem IsLineStart.newlinesBetween_lt (h : s.IsLineStart start) (hlt : pos < start) :
    s.newlinesBetween 0 pos < s.newlinesBetween 0 start := by
  have hnewline : s.isAt (start - 1) Byte.newline = true := h.resolve_left (by omega)
  have hlast := newlinesBetween_succ s (start - 1)
  rw [Nat.sub_add_cancel (by omega), if_pos hnewline] at hlast
  have hle := newlinesBetween_mono s (show pos ≤ start - 1 by omega)
  rw [newlinesBetween_add (Nat.zero_le (start - 1)) (Nat.sub_le start 1), hlast]
  omega

/-- A line start is at or before an address exactly if its number is at most that of the address. -/
theorem IsLineStart.le_iff (h : s.IsLineStart start) :
    start ≤ pos ↔ s.newlinesBetween 0 start ≤ s.newlinesBetween 0 pos := by
  refine ⟨newlinesBetween_mono s, fun hle => ?_⟩
  by_contra hlt
  have hmore := h.newlinesBetween_lt (Nat.not_le.mp hlt)
  omega

/-- From one line start down to another there are as many newlines as their numbers differ by. -/
theorem newlinesBetween_eq_sub (s : Script) (h : start ≤ stop) :
    s.newlinesBetween start stop = s.newlinesBetween 0 stop - s.newlinesBetween 0 start := by
  rw [newlinesBetween_add (Nat.zero_le start) h, Nat.add_sub_cancel_left]

/-- Every number up to that of an address belongs to a line that begins at or before the address. -/
theorem exists_isLineStart (h : number ≤ s.newlinesBetween 0 pos) :
    ∃ start ≤ pos, s.IsLineStart start ∧ s.newlinesBetween 0 start = number := by
  induction pos with
  | zero =>
    rw [newlinesBetween_of_le (Nat.le_refl 0)] at h
    refine ⟨0, Nat.le_refl 0, .inl rfl, ?_⟩
    rw [newlinesBetween_of_le (Nat.le_refl 0)]
    omega
  | succ pos ih =>
    have hsucc := newlinesBetween_succ s pos
    have hsum : s.newlinesBetween 0 (pos + 1) = _ :=
      newlinesBetween_add (Nat.zero_le pos) (Nat.le_succ pos)
    by_cases hle : number ≤ s.newlinesBetween 0 pos
    · obtain ⟨start, hstart, hline⟩ := ih hle
      exact ⟨start, by omega, hline⟩
    · split at hsucc
      · next hnewline => exact ⟨pos + 1, Nat.le_refl _, .inr hnewline, by omega⟩
      · omega

/-! ## The line after a line -/

section Behind

variable {line rest : Bytes}

private theorem isLineStart_behind (hahead : s.ahead start = line ++ Byte.newline :: rest) :
    s.IsLineStart (start + line.length + 1) := by
  refine .inr ?_
  rw [Nat.add_sub_cancel, isAt_cons (ahead_add_length hahead)]
  rfl

/-- Its number is the next one. -/
theorem newlinesBetween_behind (hahead : s.ahead start = line ++ Byte.newline :: rest)
    (hplain : Byte.newline ∉ line) :
    s.newlinesBetween 0 (start + line.length + 1) = s.newlinesBetween 0 start + 1 := by
  have hline : s.newlinesBetween start (start + line.length) = 0 := by
    rw [newlinesBetween, slice_append hahead]
    exact List.count_eq_zero.mpr hplain
  rw [newlinesBetween_add (Nat.zero_le start) (by omega),
    newlinesBetween_add (Nat.le_add_right start line.length) (by omega), hline,
    newlinesBetween_succ, isAt_cons (ahead_add_length hahead)]
  simp

/-- No line begins after the last one. -/
theorem not_isLineStart_behind (hplain : Byte.newline ∉ s.ahead start) (hlt : start < pos) :
    ¬ s.IsLineStart pos := by
  intro hpos
  obtain ⟨k, rfl⟩ := Nat.exists_eq_add_of_lt hlt
  have hnewline : s.isAt (start + k) Byte.newline = true := hpos.resolve_left (by omega)
  rw [isAt, byte?_eq_head?, ahead_add, List.head?_drop, beq_iff_eq] at hnewline
  exact hplain (List.mem_of_getElem? hnewline)

/-- Of the lines ahead, the further ones are those ahead from behind the newline of the first one,
where the next line begins. Or there are none, and no line begins further on. -/
theorem lines_behind {further : List Bytes}
    (hlines : Bytes.lines (s.ahead start) = line :: further) :
    (further = Bytes.lines (s.ahead (start + line.length + 1)) ∧
      s.IsLineStart (start + line.length + 1) ∧
      s.newlinesBetween 0 (start + line.length + 1) = s.newlinesBetween 0 start + 1) ∨
    (further = [] ∧ ∀ pos, start < pos → ¬ s.IsLineStart pos) := by
  have hplain : Byte.newline ∉ line := by
    rw [Bytes.line_eq_takeWhile hlines]
    intro hmem
    exact absurd (List.mem_takeWhile_imp hmem) (by decide)
  rcases Bytes.lines_eq_cons hlines with ⟨rest, hahead, rfl⟩ | ⟨hahead, rfl⟩
  · refine .inl ⟨?_, isLineStart_behind hahead, newlinesBetween_behind hahead hplain⟩
    rw [ahead_succ (ahead_add_length hahead)]
  · exact .inr ⟨rfl, fun pos hlt => not_isLineStart_behind (hahead ▸ hplain) hlt⟩

end Behind

/-! ## The number of lines -/

private theorem newlinesBetween_size (s : Script) :
    s.newlinesBetween 0 s.size = s.bytes.toList.count Byte.newline := by
  simp [newlinesBetween, slice, size]

/-- The last byte of a script is told by the end of its bytes. -/
theorem getLast?_bytes (s : Script) : s.bytes.toList.getLast? = s.byte? (s.size - 1) := by
  simp [byte?, size, List.getLast?_eq_getElem?]

/-- The numbers of lines are those below the number of lines of the text. -/
theorem exists_lineAt_iff : (∃ pos, s.LineAt number pos) ↔
    number < (Bytes.lines s.bytes.toList).length := by
  rw [Bytes.length_lines, ← newlinesBetween_size, getLast?_bytes]
  constructor
  · rintro ⟨pos, hstart, hlt, rfl⟩
    have hle := newlinesBetween_mono s (Nat.le_of_lt hlt)
    split
    · omega
    · next hlast =>
      -- The last byte is a newline, at or behind the start of the line.
      have hend : s.size - 1 < s.bytes.size := by
        unfold size at *
        omega
      have hsome : s.byte? (s.size - 1) = some s.bytes[s.size - 1] :=
        Array.getElem?_eq_getElem hend
      have hnewline : s.IsLineStart s.size := by
        refine .inr ?_
        simpa [hsome, isAt] using hlast
      have hmore := hnewline.newlinesBetween_lt hlt
      omega
  · intro h
    have hle : number ≤ s.newlinesBetween 0 s.size := by
      split at h <;> omega
    obtain ⟨pos, hpos, hstart, hnumber⟩ := exists_isLineStart hle
    refine ⟨pos, hstart, ?_, hnumber⟩
    rcases Nat.lt_or_eq_of_le hpos with hlt | rfl
    · exact hlt
    · -- Behind a last newline there is no further line.
      exfalso
      rcases hstart with hzero | hnewline
      · have hnone : s.byte? (s.size - 1) = none := Array.getElem?_eq_none (by unfold size at *; omega)
        rw [hnone, hnumber] at h
        simp at h
      · rw [beq_iff_eq.mp hnewline, hnumber] at h
        simp at h

end Script

end NovelScript
