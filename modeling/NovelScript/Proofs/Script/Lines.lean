import NovelScript.Proofs.Ahead

/-!
# Lines of a script

An address is described by the line that it is on and by its distance from the start of that line.
This file says what the start and the end of a line are, and shows that counting the newlines
between two line starts and then going down as many lines leads from the first to the second.
-/

namespace NovelScript.Script

variable {s : Script} {p : UInt8 → Bool} {pos k : Nat}

/-! ## Scanning -/

/-- Every byte that scanning passes over satisfies the predicate. -/
theorem holdsAt_of_lt_advanceWhile (hk : pos ≤ k) (h : k < s.advanceWhile p pos) :
    s.holdsAt k p = true := by
  fun_induction advanceWhile s p pos with
  | case1 pos hpos hp ih =>
    rcases Nat.eq_or_lt_of_le hk with rfl | hk
    · simp [holdsAt, byte?, hpos, hp]
    · exact ih hk h
  | case2 | case3 => omega

/-- The byte where scanning stops does not satisfy the predicate. -/
theorem holdsAt_advanceWhile (s : Script) (p : UInt8 → Bool) (pos : Nat) :
    s.holdsAt (s.advanceWhile p pos) p = false := by
  fun_induction advanceWhile s p pos with
  | case1 pos _ _ ih => exact ih
  | case2 pos hpos hp => simpa [holdsAt, byte?, hpos] using hp
  | case3 pos hpos => simp [holdsAt, byte?, Nat.not_lt.mp hpos]

/-- Scanning that has come to an end goes no further. -/
theorem advanceWhile_advanceWhile (s : Script) (p : UInt8 → Bool) (pos : Nat) :
    s.advanceWhile p (s.advanceWhile p pos) = s.advanceWhile p pos := by
  apply Nat.le_antisymm _ (s.le_advanceWhile p _)
  by_contra hmore
  have hholds := holdsAt_of_lt_advanceWhile (Nat.le_refl _) (Nat.not_le.mp hmore)
  rw [holdsAt_advanceWhile] at hholds
  cases hholds

/-- A byte found at a position is a byte of the script. -/
theorem lt_size_of_isAt {b : UInt8} (h : s.isAt pos b = true) : pos < s.size := by
  simp only [isAt, byte?, beq_iff_eq] at h
  exact (Array.getElem?_eq_some_iff.mp h).1

/-- A position that holds a byte lies inside the script. -/
theorem lt_size_of_byte? {b : UInt8} (h : s.byte? pos = some b) : pos < s.size :=
  lt_size_of_isAt (beq_iff_eq.mpr h)

/-- What a predicate says of the byte at a position, once that byte is known. -/
theorem holdsAt_of_isAt {b : UInt8} (h : s.isAt pos b = true) : s.holdsAt pos p = p b := by
  rw [holdsAt, beq_iff_eq.mp h, Option.any_some]

/-! ## Starts and ends of lines -/

/-- The address is the first one or comes after a newline. -/
def IsLineStart (s : Script) (pos : Nat) : Prop :=
  pos = 0 ∨ s.isAt (pos - 1) Byte.newline = true

/-- There is no newline from one address up to another. -/
def SameLine (s : Script) (start stop : Nat) : Prop :=
  ∀ k, start ≤ k → k < stop → s.isAt k Byte.newline = false

/-- A line starts inside the script. -/
theorem IsLineStart.le_size (h : s.IsLineStart pos) : pos ≤ s.size := by
  rcases h with rfl | h
  · exact Nat.zero_le _
  · have := lt_size_of_isAt h
    omega

private theorem isLineStart_lineStartBefore (s : Script) (pos : Nat) :
    s.IsLineStart (s.lineStartBefore pos) := by
  induction pos with
  | zero => exact .inl rfl
  | succ pos ih =>
    rw [lineStartBefore]
    split
    · next h => exact .inr h
    · exact ih

private theorem lineStartBefore_le (s : Script) (pos : Nat) : s.lineStartBefore pos ≤ pos := by
  induction pos with
  | zero => exact Nat.le_refl 0
  | succ pos ih =>
    rw [lineStartBefore]
    split <;> omega

private theorem sameLine_lineStartBefore (s : Script) (pos : Nat) :
    s.SameLine (s.lineStartBefore pos) pos := by
  induction pos with
  | zero => exact fun k _ hk => absurd hk (Nat.not_lt_zero k)
  | succ pos ih =>
    rw [lineStartBefore]
    intro k hle hlt
    split at hle
    · omega
    · next hplain =>
      rcases Nat.eq_or_lt_of_le (Nat.le_of_lt_succ hlt) with rfl | hlt
      · simpa using hplain
      · exact ih k hle hlt

/-- The start of the line of an address is a line start. -/
theorem isLineStart_lineStart (s : Script) (pos : Nat) : s.IsLineStart (s.lineStart pos) :=
  isLineStart_lineStartBefore s _

/-- A line starts no later than the positions on it. -/
theorem lineStart_le (s : Script) (pos : Nat) : s.lineStart pos ≤ pos :=
  Nat.le_trans (lineStartBefore_le s _) (Nat.min_le_left _ _)

/-- There is no newline between the start of the line of an address and the address. -/
theorem sameLine_lineStart (h : pos ≤ s.size) : s.SameLine (s.lineStart pos) pos := by
  have hline := sameLine_lineStartBefore s (min pos s.size)
  rw [Nat.min_eq_left h] at hline
  rwa [lineStart, Nat.min_eq_left h]

/-- A line start at or before an address is at or before the start of its line. -/
theorem IsLineStart.le_lineStart {start : Nat} (h : s.IsLineStart start) (hle : start ≤ pos)
    (hpos : pos ≤ s.size) : start ≤ s.lineStart pos := by
  by_contra hlt
  have hnewline := h.resolve_left (by omega)
  rw [sameLine_lineStart hpos (start - 1) (by omega) (by omega)] at hnewline
  cases hnewline

/-- A line start without a newline between it and an address is the start of its line. -/
theorem IsLineStart.lineStart_eq {start : Nat} (h : s.IsLineStart start) (hle : start ≤ pos)
    (hpos : pos ≤ s.size) (hline : s.SameLine start pos) : s.lineStart pos = start := by
  have hbefore := h.le_lineStart hle hpos
  by_contra hne
  have hlineStart := lineStart_le s pos
  have hnewline := (isLineStart_lineStart s pos).resolve_left (by omega)
  rw [hline _ (by omega) (by omega)] at hnewline
  cases hnewline

/-- A line ends no earlier than the positions on it. -/
theorem le_lineEnd (h : pos ≤ s.size) : pos ≤ s.lineEnd pos := by
  rw [lineEnd, Nat.min_eq_left h]
  exact le_advanceWhile _ _ _

/-- There is no newline between an address and the end of its line. -/
theorem sameLine_lineEnd (h : pos ≤ s.size) : s.SameLine pos (s.lineEnd pos) := by
  intro k hle hlt
  rw [lineEnd, Nat.min_eq_left h] at hlt
  have hplain := holdsAt_of_lt_advanceWhile hle hlt
  cases hat : s.isAt k Byte.newline with
  | false => rfl
  | true =>
    rw [holdsAt_of_isAt hat] at hplain
    cases hplain

/-- A line ends at a newline or at the end of the script. -/
theorem isAt_lineEnd (h : s.lineEnd pos < s.size) : s.isAt (s.lineEnd pos) Byte.newline = true := by
  have hstop := holdsAt_advanceWhile s (· != Byte.newline) (min pos s.size)
  rw [show s.advanceWhile (· != Byte.newline) (min pos s.size) = s.lineEnd pos from rfl] at hstop
  simp only [size] at h
  simpa [holdsAt, isAt, byte?, h] using hstop

/-- An address without a newline between the start of its line and itself is not beyond the end
of the line. -/
theorem le_lineEnd_of_sameLine {start : Nat} (hstart : start ≤ pos) (hpos : pos ≤ s.size)
    (h : s.SameLine start pos) : pos ≤ s.lineEnd start := by
  by_contra hlt
  have hnewline : s.isAt (s.lineEnd start) Byte.newline = true := isAt_lineEnd (by omega)
  rw [h _ (le_lineEnd (by omega)) (by omega)] at hnewline
  cases hnewline

/-! ## Counting newlines -/

/-- The newlines of two adjoining ranges add up. -/
theorem newlinesBetween_add {start middle stop : Nat} (h : start ≤ middle) (h' : middle ≤ stop) :
    s.newlinesBetween start stop = s.newlinesBetween start middle + s.newlinesBetween middle stop := by
  have hslice : s.slice start stop = s.slice start middle ++ s.slice middle stop := by
    simp only [slice, ← Array.toList_append]
    rw [Array.extract_append_extract, Nat.min_eq_left h, Nat.max_eq_right h']
  rw [newlinesBetween, hslice, List.count_append]
  rfl

/-- One byte is one newline or none. -/
theorem newlinesBetween_succ (s : Script) (pos : Nat) :
    s.newlinesBetween pos (pos + 1) = if s.isAt pos Byte.newline then 1 else 0 := by
  rw [newlinesBetween, slice_eq_take, isAt, byte?_eq_head?]
  cases s.ahead pos with
  | nil => rfl
  | cons b rest => simp [List.count_cons]

/-- An empty range holds no newline. -/
theorem newlinesBetween_of_le {start stop : Nat} (h : stop ≤ start) :
    s.newlinesBetween start stop = 0 := by
  rw [newlinesBetween, slice, Array.extract_empty_of_stop_le_start h]
  rfl

/-- On one line there is no newline to count. -/
theorem newlinesBetween_of_sameLine {start stop : Nat} (h : s.SameLine start stop) :
    s.newlinesBetween start stop = 0 := by
  induction stop with
  | zero => exact newlinesBetween_of_le (Nat.zero_le _)
  | succ stop ih =>
    by_cases hle : start ≤ stop
    · rw [newlinesBetween_add hle (Nat.le_succ _), newlinesBetween_succ, h stop hle (Nat.lt_succ_self _),
        ih fun k hk hlt => h k hk (Nat.lt_succ_of_lt hlt)]
      rfl
    · exact newlinesBetween_of_le (by omega)

/-! ## Going down -/

/-- The line after a line that is not the last one. -/
theorem nextLine_of_lt {base start : Nat} (h : base < start) (hstart : s.IsLineStart start) :
    base < s.nextLine base ∧ s.nextLine base ≤ start ∧
      s.newlinesBetween base start = s.newlinesBetween (s.nextLine base) start + 1 := by
  have hsize := hstart.le_size
  have hbefore : s.isAt (start - 1) Byte.newline = true := hstart.resolve_left (by omega)
  have hend : s.lineEnd base < start := by
    by_contra hge
    have hplain := sameLine_lineEnd (s := s) (by omega : base ≤ s.size) (start - 1)
      (by omega) (by omega)
    rw [hplain] at hbefore
    cases hbefore
  have hnext : s.nextLine base = s.lineEnd base + 1 := if_pos (by omega)
  have hbase : base ≤ s.lineEnd base := le_lineEnd (by omega)
  have hnewline : s.isAt (s.lineEnd base) Byte.newline = true := isAt_lineEnd (by omega)
  rw [hnext]
  refine ⟨by omega, by omega, ?_⟩
  rw [newlinesBetween_add hbase (by omega), newlinesBetween_of_sameLine (sameLine_lineEnd (by omega)),
    newlinesBetween_add (Nat.le_add_right (s.lineEnd base) 1) hend, newlinesBetween_succ,
    if_pos hnewline]
  omega

/-- As many lines down as there are newlines up to a line start is that line start. -/
theorem linesDown_newlinesBetween {base start : Nat} (h : base ≤ start)
    (hstart : s.IsLineStart start) :
    s.linesDown (s.newlinesBetween base start) base = start := by
  -- Each line that is passed over leaves less distance to the line start.
  induction hdist : start - base using Nat.strongRecOn generalizing base with
  | ind dist ih =>
    rcases Nat.eq_or_lt_of_le h with rfl | hlt
    · rw [newlinesBetween_of_le (Nat.le_refl _)]
      rfl
    · obtain ⟨hdown, hle, hcount⟩ := nextLine_of_lt hlt hstart
      rw [hcount, linesDown, if_neg (by omega)]
      exact ih (start - s.nextLine base) (by omega) hle rfl

end NovelScript.Script
