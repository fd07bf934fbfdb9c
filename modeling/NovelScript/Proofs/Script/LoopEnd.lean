import Mathlib.Logic.Relation
import NovelScript.Proofs.Script.StatementEnd
import NovelScript.Proofs.Script.Walks

/-!
# Where the end of a loop is found

The end of a loop is looked for in the text of the script, by the names of commands alone, while
execution asks the table of commands whether a word is a command at all. Where both see the same
statements, the end that is found is a statement that execution comes to when it takes no jump. The
two part at a line of text that begins with a word and has a separator after it: execution takes the
line for text as a whole, the search goes on behind the separator.
-/

namespace NovelScript.Script

variable {s : Script} {table : CommandTable} {start addr : Nat}

/-! ## Execution without jumps -/

/-- Where execution goes on after the statement at an address, if it takes no jump: a command ends
with its statement, a line of text with the line. -/
def following (s : Script) (table : CommandTable) (addr : Nat) : Nat :=
  let statement := s.statementAt addr false
  match statement.kind with
  | .command word =>
    if table.resolve word = .unknown then s.lineEnd statement.start
    else s.skipStatement false statement.next
  | .text => s.lineEnd statement.start
  | _ => statement.next

/-- Execution goes on from one address to the next one. -/
def Follows (s : Script) (table : CommandTable) (addr next : Nat) : Prop :=
  (s.statementAt addr false).kind ≠ .endOfScript ∧ next = s.following table addr

/-- Execution that starts at one address and takes no jump comes to another one. -/
def ComesTo (s : Script) (table : CommandTable) : Nat → Nat → Prop :=
  Relation.ReflTransGen (s.Follows table)

/-- Whether the line at an address is anything but text that begins with a word and has a separator
after it. -/
def unbroken (s : Script) (table : CommandTable) (addr : Nat) : Bool :=
  let statement := s.statementAt addr false
  match statement.kind with
  | .command word =>
    table.resolve word != .unknown ||
      s.skipStatement false statement.next == s.lineEnd statement.start
  | _ => true

/-- On an unbroken line execution takes a command as far as the search does. -/
theorem following_of_command {word : CommandWord} (h : s.unbroken table addr = true)
    (hkind : (s.statementAt addr false).kind = .command word) :
    s.following table addr = s.skipStatement false (s.statementAt addr false).next := by
  simp only [unbroken, hkind] at h
  simp only [following, hkind]
  split
  · next hunknown =>
    have hends : s.skipStatement false (s.statementAt addr false).next =
        s.lineEnd (s.statementAt addr false).start := by simpa [hunknown] using h
    exact hends.symm
  · rfl

/-- The names that the search knows are always names of commands. -/
theorem resolve_next_ne_unknown {word : CommandWord} (h : word.name = "next") :
    table.resolve word ≠ .unknown := by
  have hbuiltin : Command.ofName? "next" = some .next := by decide
  unfold CommandTable.resolve
  rw [h, hbuiltin]
  split <;> simp

/-! ## Commands that are found again -/

/-- A statement starts behind the separators that stand before it. -/
theorem start_statementAt (s : Script) (addr : Nat) (tags : Bool) :
    (s.statementAt addr tags).start = s.skipSeparators (min addr s.size) := by
  rw [statementAt]
  dsimp only
  split
  · rfl
  · split_ifs
    all_goals try rfl
    unfold tagAt
    dsimp only
    split <;> rfl

/-- Whether tags are read matters only where a bracket stands, and there no command begins. -/
theorem statementAt_of_command {word : CommandWord}
    (h : (s.statementAt addr false).kind = .command word) (tags : Bool) :
    s.statementAt addr tags = s.statementAt addr false := by
  rw [statementAt] at h ⊢
  rw [statementAt]
  dsimp only at h ⊢
  split
  · rfl
  · next b hb =>
    rw [hb] at h
    dsimp only at h
    by_cases hbracket : b = Byte.leftBracket
    · subst hbracket
      cases h
    · simp only [beq_eq_false_iff_ne.mpr hbracket, Bool.false_and]

/-- Addresses with the same separators before a statement read the same statement. -/
theorem statementAt_congr {addr other : Nat}
    (h : s.skipSeparators (min other s.size) = s.skipSeparators (min addr s.size)) (tags : Bool) :
    s.statementAt other tags = s.statementAt addr tags := by
  rw [statementAt, h, statementAt]

/-- A command is found again from its first byte on, whether tags are read or not. -/
theorem statementAt_start {word : CommandWord} (h : (s.statementAt addr false).kind = .command word)
    (tags : Bool) :
    s.statementAt (s.statementAt addr false).start tags = s.statementAt addr false := by
  have hagain : s.skipSeparators (min (s.statementAt addr false).start s.size) =
      s.skipSeparators (min addr s.size) := by
    rw [Nat.min_eq_left (s.statementAt_le_size addr false).1, start_statementAt]
    exact advanceWhile_advanceWhile s _ _
  rw [statementAt_congr hagain, statementAt_of_command h]

/-! ## The statements that the search goes over -/

/-- Where the search goes on after a statement. -/
def passOver (s : Script) (statement : Statement) : Nat :=
  match statement.kind with
  | .command _ => s.skipStatement false statement.next
  | .text => s.lineEnd statement.start
  | _ => statement.next

/-- A name takes at least one byte. -/
theorem lt_of_name? {pos after : Nat} {name : String} (h : s.name? pos = some (name, after)) :
    pos < after := by
  obtain ⟨hstart, hname⟩ := Option.ite_none_right_eq_some.mp h
  obtain ⟨b, hb, hholds⟩ := (Option.any_eq_true _ _).mp hstart
  obtain ⟨hpos, hat⟩ := Array.getElem?_eq_some_iff.mp hb
  have hbyte : Byte.isNameByte s.bytes[pos] = true := by
    rw [hat]
    simp only [Byte.isNameStart, Byte.isNameByte, Bool.or_eq_true] at hholds ⊢
    tauto
  have hrest := s.le_advanceWhile Byte.isNameByte (pos + 1)
  cases hname
  rw [advanceWhile, dif_pos hpos, if_pos hbyte]
  omega

/-- The rest of a statement that does not begin with a newline takes at least one byte. -/
theorem lt_skipStatement {pos : Nat} {b : UInt8} (hb : s.byte? pos = some b)
    (hne : b ≠ Byte.newline) : pos < s.skipStatement false pos := by
  obtain ⟨hpos, hat⟩ := Array.getElem?_eq_some_iff.mp hb
  have hwidth := s.charWidth_pos false hpos
  have hrest := s.le_skipStatementFrom false (xor false (b == Byte.quote))
    (pos + s.charWidth false pos)
  rw [skipStatement, skipStatementFrom, dif_pos hpos]
  simp only [hat, beq_iff_eq, hne, if_false]
  split <;> omega

/-- A statement does not begin in front of the address where it is looked for. -/
theorem le_start_statementAt {tags : Bool} (h : (s.statementAt addr tags).kind ≠ .endOfScript) :
    addr ≤ (s.statementAt addr tags).start := by
  have hstart : min addr s.size ≤ s.skipSeparators (min addr s.size) := le_advanceWhile s _ _
  rw [start_statementAt]
  rw [statementAt] at h
  split at h
  · exact absurd rfl h
  · next b hb =>
    have hlt := lt_size_of_byte? hb
    omega

/-- Every statement takes at least one byte. -/
theorem lt_passOver {tags : Bool} (h : (s.statementAt addr tags).kind ≠ .endOfScript) :
    addr < s.passOver (s.statementAt addr tags) := by
  refine Nat.lt_of_le_of_lt (le_start_statementAt h) ?_
  rw [start_statementAt]
  revert h
  rw [statementAt]
  generalize s.skipSeparators (min addr s.size) = start
  split
  · exact fun h => absurd rfl h
  · next b hb =>
    intro _
    have hline := fun pos => s.le_advanceChars false (· == Byte.newline) pos
    have hrest := fun pos => s.le_skipStatementFrom false false pos
    -- One case for each kind of statement, in the order in which they are told apart.
    split
    · exact Nat.lt_succ_self start
    next hnewline =>
    have hne : b ≠ Byte.newline := by simpa using hnewline
    split
    · exact lt_skipToLineEnd hb hne
    split
    · cases hname : s.name? (start + 1) with
      | none => exact hline _
      | some found => exact Nat.lt_of_lt_of_le (le_of_name? hname) (hline _)
    split
    · exact Nat.lt_succ_self start
    split
    · have hclose := s.le_advanceChars false (fun b => b == Byte.newline || b == Byte.rightBracket)
        (start + 1)
      rw [passOver, kind_tagAt, tagAt]
      dsimp only
      split <;> dsimp only <;> omega
    split
    · rw [commandAt]
      cases hname : s.name? (start + 1) with
      | none => exact hrest _
      | some found => exact Nat.lt_of_lt_of_le (le_of_name? hname) (hrest _)
    split
    · rw [commandAt]
      cases hname : s.name? start with
      | none => exact lt_skipStatement hb hne
      | some found => exact Nat.lt_of_lt_of_le (lt_of_name? hname) (hrest _)
    split
    · exact lt_skipStatement hb hne
    · exact lt_lineEnd (le_lineEnd (Nat.le_of_lt (lt_size_of_byte? hb))) hb hne

/-! ## The search -/

/-- Induction along the search, from the end that it finds back to where it starts. -/
theorem loopEndWithin_induct {found : LoopEnd} {motive : Nat → Prop}
    (found_here : ∀ addr word, (s.statementAt addr false).kind = .command word →
      word.name = "next" → found.start = (s.statementAt addr false).start → motive addr)
    (pass : ∀ addr, (s.statementAt addr false).kind ≠ .endOfScript →
      motive (s.passOver (s.statementAt addr false)) → motive addr)
    {statements depth : Nat} (h : s.loopEndWithin statements depth addr = some found) :
    motive addr := by
  have hcommand : ∀ {addr word}, (s.statementAt addr false).kind = .command word →
      motive (s.skipStatement false (s.statementAt addr false).next) → motive addr := by
    intro addr word hkind hafter
    refine pass addr (by simp [hkind]) ?_
    rwa [passOver, hkind]
  fun_induction loopEndWithin s statements depth addr with
  | case1 => cases h
  | case2 => cases h
  | case3 _ _ _ _ _ hkind _ _ ih => exact hcommand hkind (ih h)
  | case4 _ addr _ word hkind _ _ hnext =>
    cases h
    exact found_here addr word hkind hnext rfl
  | case5 _ _ _ _ hkind _ _ _ _ ih => exact hcommand hkind (ih h)
  | case6 _ _ _ _ _ hkind _ _ _ ih => exact hcommand hkind (ih h)
  | case7 _ _ addr statement hkind ih =>
    have htext : (s.statementAt addr false).kind = .text := hkind
    refine pass addr (by simp [htext]) ?_
    rw [passOver, htext]
    exact ih h
  | case8 _ _ addr statement hend hcommands htexts ih =>
    refine pass addr hend ?_
    rw [passOver]
    split
    · next word hkind => exact absurd hkind (hcommands word)
    · next hkind => exact absurd hkind htexts
    · exact ih h

/-- What is found is the name of the command that ends a loop. -/
theorem next_of_loopEndWithin {statements depth : Nat} {found : LoopEnd}
    (h : s.loopEndWithin statements depth addr = some found) (tags : Bool) :
    ∃ word, (s.statementAt found.start tags).kind = .command word ∧ word.name = "next" := by
  refine loopEndWithin_induct (motive := fun _ => ∃ word : CommandWord,
    (s.statementAt found.start tags).kind = .command word ∧ word.name = "next") ?_
    (fun _ _ hrest => hrest) h
  intro addr word hkind hnext hstart
  refine ⟨word, ?_, hnext⟩
  rw [hstart, statementAt_start hkind]
  exact hkind

/-- What the search for the end of a loop finds is a `next`. -/
theorem next_of_loopEnd {found : LoopEnd} (h : s.loopEnd addr = .ok found) (tags : Bool) :
    ∃ word, (s.statementAt found.start tags).kind = .command word ∧ word.name = "next" :=
  next_of_loopEndWithin (loopEndWithin_of_loopEnd h) tags

/-- Execution that starts at an address and takes no jump comes to a statement that ends a loop, and
that begins at `pos`. -/
def ComesToLoopEnd (s : Script) (table : CommandTable) (start pos : Nat) : Prop :=
  ∃ addr word, s.ComesTo table start addr ∧ (s.statementAt addr false).start = pos ∧
    (s.statementAt addr false).kind = .command word ∧ word.name = "next" ∧
    table.resolve word ≠ .unknown

/-- On an unbroken line the search and execution go on to the same address. -/
theorem follows_passOver (hline : s.unbroken table addr = true)
    (hend : (s.statementAt addr false).kind ≠ .endOfScript) :
    s.Follows table addr (s.passOver (s.statementAt addr false)) := by
  refine ⟨hend, ?_⟩
  cases hkind : (s.statementAt addr false).kind with
  | command word => rw [following_of_command hline hkind, passOver, hkind]
  | _ => simp only [following, passOver, hkind]

/-- The end that is found and the way to it: as long as the lines in front of it are unbroken,
execution comes to the end of the loop, too. -/
theorem loopEndWithin_comesTo {statements depth : Nat} {found : LoopEnd}
    (h : s.loopEndWithin statements depth addr = some found) :
    addr ≤ found.start ∧
      ((∀ last < found.start, s.ComesTo table addr last → s.unbroken table last = true) →
        s.ComesToLoopEnd table addr found.start) := by
  refine loopEndWithin_induct (motive := fun addr => addr ≤ found.start ∧
    ((∀ last < found.start, s.ComesTo table addr last → s.unbroken table last = true) →
      s.ComesToLoopEnd table addr found.start)) ?_ ?_ h
  · intro addr word hkind hnext hstart
    refine ⟨?_, fun _ => ⟨addr, word, .refl, hstart.symm, hkind, hnext,
      resolve_next_ne_unknown hnext⟩⟩
    rw [hstart]
    exact le_start_statementAt (by simp [hkind])
  · rintro addr hend ⟨hle, hrest⟩
    have hlt := (lt_passOver hend).trans_le hle
    refine ⟨hlt.le, fun hlines => ?_⟩
    have hstep := follows_passOver (hlines addr hlt .refl) hend
    obtain ⟨last, word, hcomes, hlast⟩ := hrest fun last hbefore hcomes =>
      hlines last hbefore (.head hstep hcomes)
    exact ⟨last, word, .head hstep hcomes, hlast⟩

/-- **Where the search sees what execution sees, it ends at a statement that execution comes to.**
Only the lines in front of that statement matter. -/
theorem loopEnd_comesTo {found : LoopEnd} (h : s.loopEnd start = .ok found)
    (hlines : ∀ last < found.start, s.ComesTo table start last → s.unbroken table last = true) :
    s.ComesToLoopEnd table start found.start :=
  (loopEndWithin_comesTo (loopEndWithin_of_loopEnd h)).2 hlines

/-- Execution stays on a list of addresses that it cannot leave. -/
theorem ComesTo.mem {addresses : List Nat} (h : s.ComesTo table start addr)
    (hstart : start ∈ addresses)
    (hclosed : ∀ addr ∈ addresses, (s.statementAt addr false).kind ≠ .endOfScript →
      s.following table addr ∈ addresses) : addr ∈ addresses := by
  induction h with
  | refl => exact hstart
  | tail _ hstep ih =>
    obtain ⟨hkind, rfl⟩ := hstep
    exact hclosed _ ih hkind

/-- A loop whose body is never executed, with a line of text and a command in it. Behind the loop
there is a line of text with a separator. -/
def skippedLoop : Script where
  bytes := (Bytes.ofText "for %0 = 2 to 1\nhello\n%1 = 5:next\nhello: next\n").toArray
  encoding := .utf8

/-- Where execution of this loop comes to, from the end of its first line on. -/
def skippedLoopPath : List Nat := [15, 16, 21, 22, 29, 33, 34, 45, 46]

/-- The end of the loop is found where execution comes to it. -/
theorem loopEnd_comesTo_skippedLoop :
    skippedLoop.loopEnd 15 = .ok { start := 29, after := 33 } ∧
      skippedLoop.unbroken {} 34 = false ∧ skippedLoop.ComesToLoopEnd {} 15 29 := by
  have hfound : skippedLoop.loopEnd 15 = .ok { start := 29, after := 33 } := by decide +kernel
  refine ⟨hfound, by decide +kernel, loopEnd_comesTo hfound fun last hlast hcomes => ?_⟩
  have hmem : last ∈ skippedLoopPath := hcomes.mem (by decide) (by decide +kernel)
  have hlines : ∀ addr ∈ skippedLoopPath, addr < 29 → skippedLoop.unbroken {} addr = true := by
    decide +kernel
  exact hlines last hmem hlast

/-- The same loop with a separator in the line of text. -/
def dialogueLoop : Script where
  bytes := (Bytes.ofText "for %0 = 2 to 1\nhello: next\n%1 = 5\nnext\nend\n").toArray
  encoding := .utf8

/-- The end of the loop is found inside the line of text, where execution never comes to a
statement. -/
theorem loopEnd_dialogueLoop :
    dialogueLoop.loopEnd 15 = .ok { start := 23, after := 27 } ∧
      ¬ ∃ addr, dialogueLoop.ComesTo {} 15 addr ∧
        (dialogueLoop.statementAt addr false).start = 23 := by
  refine ⟨by decide +kernel, ?_⟩
  rintro ⟨addr, hcomes, hstart⟩
  have hmem : addr ∈ [15, 16, 27, 28, 34, 35, 39, 40, 43, 44] :=
    hcomes.mem (by decide) (by decide +kernel)
  have hstarts : ∀ addr ∈ [15, 16, 27, 28, 34, 35, 39, 40, 43, 44],
      (dialogueLoop.statementAt addr false).start ≠ 23 := by decide +kernel
  exact hstarts addr hmem hstart

end NovelScript.Script
