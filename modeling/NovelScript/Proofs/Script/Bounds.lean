import NovelScript.Proofs.Script.Scanning

/-!
# Scanning stays inside the script

Every scanning function of a script that is started at an address of the script comes to an address
of the script: it passes over a byte only if the byte is there.
-/

namespace NovelScript.Script

variable {s : Script} {pos : Nat}

/-- A byte that a predicate holds of is a byte of the script. -/
theorem lt_size_of_holdsAt {p : UInt8 → Bool} (h : s.holdsAt pos p = true) : pos < s.size := by
  rw [holdsAt] at h
  cases hb : s.byte? pos with
  | none =>
    rw [hb] at h
    cases h
  | some b => exact lt_size_of_byte? hb

/-- Passing blanks never moves back. -/
theorem le_skipBlanks (s : Script) (pos : Nat) : pos ≤ s.skipBlanks pos :=
  le_advanceWhile s _ pos

/-- Passing blanks never leaves the script. -/
theorem skipBlanks_le_size (h : pos ≤ s.size) : s.skipBlanks pos ≤ s.size :=
  advanceWhile_le_size s _ h

/-- Taking an optional byte never moves back. -/
theorem le_eat (s : Script) (b : UInt8) (pos : Nat) : pos ≤ s.eat b pos := by
  unfold eat
  split <;> omega

/-- Taking an optional byte never leaves the script. -/
theorem eat_le_size (b : UInt8) (h : pos ≤ s.size) : s.eat b pos ≤ s.size := by
  rw [eat]
  split
  · next hat => exact lt_size_of_isAt hat
  · exact h

/-- A token that stands at an address ends inside the script. -/
theorem le_size_of_startsWith {token : Bytes} (h : s.startsWith token pos = true)
    (hpos : pos ≤ s.size) : pos + token.length ≤ s.size := by
  induction token generalizing pos with
  | nil => exact hpos
  | cons b token ih =>
    rw [startsWith, Bool.and_eq_true] at h
    have hrest := ih h.2 (lt_size_of_isAt h.1)
    rw [List.length_cons]
    omega

/-- A word that stands at an address ends inside the script. -/
theorem le_size_of_startsWithWord {word : Bytes} (h : s.startsWithWord word pos = true)
    (hpos : pos ≤ s.size) : pos + word.length ≤ s.size := by
  induction word generalizing pos with
  | nil => exact hpos
  | cons b word ih =>
    rw [startsWithWord, Bool.and_eq_true] at h
    have hrest := ih h.2 (lt_size_of_holdsAt h.1)
    rw [List.length_cons]
    omega

/-- A keyword ends inside the script. -/
theorem le_size_of_keyword? {word : String} {after : Nat} (h : s.keyword? word pos = some after)
    (hpos : pos ≤ s.size) : after ≤ s.size := by
  obtain ⟨hword, hafter⟩ := Option.ite_none_right_eq_some.mp h
  cases hafter
  exact le_size_of_startsWithWord (Bool.and_eq_true_iff.mp hword).1 hpos

/-- A keyword ends at or after its start. -/
theorem le_of_keyword? {word : String} {after : Nat} (h : s.keyword? word pos = some after) :
    pos ≤ after := by
  obtain ⟨-, hafter⟩ := Option.ite_none_right_eq_some.mp h
  cases hafter
  exact Nat.le_add_right _ _

/-- A name ends inside the script. -/
theorem le_size_of_name? {name : String} {after : Nat} (h : s.name? pos = some (name, after)) :
    after ≤ s.size := by
  obtain ⟨hstart, hname⟩ := Option.ite_none_right_eq_some.mp h
  cases hname
  exact advanceWhile_le_size s _ (Nat.le_of_lt (lt_size_of_holdsAt hstart))

/-- A name ends at or after its start. -/
theorem le_of_name? {name : String} {after : Nat} (h : s.name? pos = some (name, after)) :
    pos ≤ after := by
  obtain ⟨-, hname⟩ := Option.ite_none_right_eq_some.mp h
  cases hname
  exact le_advanceWhile s _ pos

/-! ## Statements -/

/-- Skipping a statement never leaves the script. -/
theorem skipStatement_le_size (narrow : Bool) (h : pos ≤ s.size) :
    s.skipStatement narrow pos ≤ s.size :=
  skipStatementFrom_le_size s narrow false h

/-- A statement starts inside the script, and so does what comes after it. -/
theorem statementAt_le_size (s : Script) (addr : Nat) (tags : Bool) :
    (s.statementAt addr tags).start ≤ s.size ∧ (s.statementAt addr tags).next ≤ s.size := by
  have hinside : s.statementAt (min addr s.size) tags = s.statementAt addr tags := by
    rw [statementAt, statementAt, Nat.min_assoc, Nat.min_self]
  have hstatement := (s.scans_inside 0).statementAt ⟨Nat.zero_le _, Nat.min_le_right addr s.size⟩ tags
  rw [hinside] at hstatement
  exact ⟨hstatement.1.2, hstatement.2.2⟩

/-- The end of a loop is inside the script. -/
theorem loopEndWithin_le_size {statements depth addr : Nat} {found : LoopEnd}
    (h : s.loopEndWithin statements depth addr = some found) :
    found.start ≤ s.size ∧ found.after ≤ s.size := by
  fun_induction loopEndWithin s statements depth addr with
  | case1 => cases h
  | case2 => cases h
  | case3 statements depth addr statement word hkind after hword ih => exact ih h
  | case4 statements addr statement word hkind after hfor hnext =>
    cases h
    have hbounds := statementAt_le_size s addr false
    exact ⟨hbounds.1, skipStatement_le_size false hbounds.2⟩
  | case5 | case6 | case7 | case8 => rename_i ih; exact ih h

/-- An end of a loop that is found is found by the bounded search. -/
theorem loopEndWithin_of_loopEnd {addr : Nat} {found : LoopEnd} (h : s.loopEnd addr = .ok found) :
    s.loopEndWithin (s.size - addr + 1) 0 addr = some found := by
  rw [loopEnd] at h
  split at h
  · next hfound =>
    cases h
    exact hfound
  · cases h

/-- The `next` found for a loop starts and ends inside the script. -/
theorem loopEnd_le_size {addr : Nat} {found : LoopEnd} (h : s.loopEnd addr = .ok found) :
    found.start ≤ s.size ∧ found.after ≤ s.size :=
  loopEndWithin_le_size (loopEndWithin_of_loopEnd h)

/-- The section after a position starts inside the script. -/
theorem sectionAfter?_le_size {target : Nat} (h : s.sectionAfter? pos = some target) :
    target ≤ s.size := by
  obtain ⟨hat, htarget⟩ := Option.ite_none_right_eq_some.mp h
  cases htarget
  exact lt_size_of_isAt hat

/-! ## Lines -/

/-- The start of a line lies inside the script. -/
theorem lineStart_le_size (s : Script) (pos : Nat) : s.lineStart pos ≤ s.size :=
  (isLineStart_lineStart s pos).le_size

/-- The end of a line lies inside the script. -/
theorem lineEnd_le_size (s : Script) (pos : Nat) : s.lineEnd pos ≤ s.size :=
  advanceWhile_le_size s _ (Nat.min_le_right _ _)

private theorem nextLine_le_size (s : Script) (pos : Nat) : s.nextLine pos ≤ s.size := by
  have hend := s.lineEnd_le_size pos
  simp only [nextLine]
  split <;> omega

/-- Moving down by lines never leaves the script. -/
theorem linesDown_le_size {count : Nat} (h : pos ≤ s.size) : s.linesDown count pos ≤ s.size := by
  induction count generalizing pos with
  | zero => exact h
  | succ count ih =>
    rw [linesDown]
    split
    · exact h
    · exact ih (s.nextLine_le_size pos)

/-- Moving up by lines never leaves the script. -/
theorem linesUp?_le_size {count target : Nat} (h : pos ≤ s.size)
    (htarget : s.linesUp? count pos = some target) : target ≤ s.size := by
  induction count generalizing pos with
  | zero =>
    cases htarget
    exact h
  | succ count ih =>
    obtain ⟨-, hup⟩ := Option.ite_none_left_eq_some.mp htarget
    exact ih (s.lineStart_le_size _) hup

end NovelScript.Script
