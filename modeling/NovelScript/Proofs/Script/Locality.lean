import NovelScript.Proofs.Script.Boundary
import NovelScript.Proofs.Script.Walks

/-!
# What the kind of a statement depends on

Reading a statement looks ahead for the end of a name, of a tag, of a line and of the target of an
assignment. In a well-formed script all of these but the last stop at the newline, so that later
lines make no difference to them. The target of an assignment may have anything in brackets: with a
bracket that is not closed on the line the look goes on behind the newline. Then the line is text
with some later lines and an assignment with others.
-/

namespace NovelScript.Script

/-- The script is well formed in its encoding. -/
def WellFormed (s : Script) : Prop :=
  s.encoding.WellFormed s.bytes.toList

/-- The other script is in the same encoding and has the same bytes up to an address. -/
structure SameUpTo (s t : Script) (stop : Nat) : Prop where
  /-- The encoding. -/
  encoding : t.encoding = s.encoding
  /-- The bytes. -/
  byte : ∀ pos ≤ stop, t.byte? pos = s.byte? pos

/-- The statement at an address begins with a sigil, and the brackets behind it are not all closed
on the line. -/
def BracketLeftOpen (s : Script) (addr : Nat) : Prop :=
  s.holdsAt (s.skipSeparators (min addr s.size)) Byte.isSigil = true ∧
    s.lineEnd addr < s.targetEnd 0 (s.skipSeparators (min addr s.size))

instance (s : Script) (addr : Nat) : Decidable (s.BracketLeftOpen addr) :=
  inferInstanceAs (Decidable (_ ∧ _))

variable {s t : Script} {stop pos : Nat} {b : UInt8}

/-! ## Single steps of scans -/

/-- One step of a scan over bytes, by the byte it reads. -/
theorem advanceWhile_of_byte? (hb : s.byte? pos = some b) (p : UInt8 → Bool) :
    s.advanceWhile p pos = if p b then s.advanceWhile p (pos + 1) else pos := by
  have hlt : pos < s.bytes.size := lt_size_of_byte? hb
  have hbyte : s.bytes[pos] = b := Option.some.inj ((Array.getElem?_eq_getElem hlt).symm.trans hb)
  rw [advanceWhile, dif_pos hlt, hbyte]

/-- One step of a scan over characters, by the byte it reads. -/
theorem advanceChars_of_byte? (hb : s.byte? pos = some b) (narrow : Bool) (p : UInt8 → Bool) :
    s.advanceChars narrow p pos =
      if p b then pos else s.advanceChars narrow p (pos + s.charWidth narrow pos) := by
  have hlt : pos < s.bytes.size := lt_size_of_byte? hb
  have hbyte : s.bytes[pos] = b := Option.some.inj ((Array.getElem?_eq_getElem hlt).symm.trans hb)
  rw [advanceChars, dif_pos hlt, hbyte]

/-- One step of the scan over an assignment's target, by the byte it reads. -/
theorem targetEnd_of_byte? (hb : s.byte? pos = some b) (depth : Nat) :
    s.targetEnd depth pos =
      if b == Byte.leftBracket then s.targetEnd (depth + 1) (pos + 1)
      else if b == Byte.rightBracket && 0 < depth then s.targetEnd (depth - 1) (pos + 1)
      else if Byte.isSigil b || Byte.isBlank b || Byte.isNameByte b || 0 < depth then
        s.targetEnd depth (pos + 1)
      else pos := by
  have hlt : pos < s.bytes.size := lt_size_of_byte? hb
  have hbyte : s.bytes[pos] = b := Option.some.inj ((Array.getElem?_eq_getElem hlt).symm.trans hb)
  rw [targetEnd, dif_pos hlt, hbyte]

/-- The byte and the number of open brackets tell whether the look for the end of a target goes on,
and with how many open brackets. -/
theorem targetEnd_step (b : UInt8) (depth : Nat) :
    (∃ next, ∀ {s : Script} {pos}, s.byte? pos = some b →
      s.targetEnd depth pos = s.targetEnd next (pos + 1)) ∨
    ∀ {s : Script} {pos}, s.byte? pos = some b → s.targetEnd depth pos = pos := by
  by_cases hleft : (b == Byte.leftBracket) = true
  · refine .inl ⟨depth + 1, fun hb => ?_⟩
    rw [targetEnd_of_byte? hb, if_pos hleft]
  by_cases hright : (b == Byte.rightBracket && decide (0 < depth)) = true
  · refine .inl ⟨depth - 1, fun hb => ?_⟩
    rw [targetEnd_of_byte? hb, if_neg hleft, if_pos hright]
  by_cases hplain : (Byte.isSigil b || Byte.isBlank b || Byte.isNameByte b || decide (0 < depth)) = true
  · refine .inl ⟨depth, fun hb => ?_⟩
    rw [targetEnd_of_byte? hb, if_neg hleft, if_neg hright, if_pos hplain]
  · refine .inr fun hb => ?_
    rw [targetEnd_of_byte? hb, if_neg hleft, if_neg hright, if_neg hplain]

/-- A newline is passed over only if a bracket is open. -/
theorem targetEnd_newline (hb : s.byte? pos = some Byte.newline) (depth : Nat) :
    s.targetEnd depth pos = if 0 < depth then s.targetEnd depth (pos + 1) else pos := by
  have hclasses : Byte.isSigil Byte.newline = false ∧ Byte.isBlank Byte.newline = false ∧
      Byte.isNameByte Byte.newline = false := by decide
  rw [targetEnd_of_byte? hb, if_neg (by decide), if_neg (by simp [Byte.newline, Byte.rightBracket])]
  simp [hclasses]

/-- The scan over an assignment's target never moves back. -/
theorem le_targetEnd (s : Script) (depth pos : Nat) : pos ≤ s.targetEnd depth pos := by
  fun_induction targetEnd s depth pos with
  | case1 _ _ _ _ _ ih => omega
  | case2 _ _ _ _ _ _ ih => omega
  | case3 _ _ _ _ _ _ _ ih => omega
  | case4 => omega
  | case5 => omega

/-- As many closing brackets as there are open ones, and then an equals sign. -/
theorem targetEnd_closing {depth : Nat} {rest : Bytes}
    (h : s.ahead pos = List.replicate depth Byte.rightBracket ++ Byte.equals :: rest) :
    s.targetEnd depth pos = pos + depth := by
  induction depth generalizing pos with
  | zero =>
    have hb : s.byte? pos = some Byte.equals := by simp [byte?_eq_head?, h]
    rw [targetEnd_of_byte? hb, if_neg (by decide), if_neg (by decide), if_neg (by decide)]
    rfl
  | succ depth ih =>
    rw [List.replicate_succ, List.cons_append] at h
    have hb : s.byte? pos = some Byte.rightBracket := by simp [byte?_eq_head?, h]
    rw [targetEnd_of_byte? hb, if_neg (by decide), if_pos (by simp), Nat.add_sub_cancel,
      ih (ahead_succ h)]
    omega

/-- All addresses of a line have the same end of the line. -/
theorem lineEnd_eq {addr start : Nat} (haddr : addr ≤ start) (hstart : start ≤ s.lineEnd addr) :
    s.lineEnd start = s.lineEnd addr := by
  have hsize : s.lineEnd addr ≤ s.size := lineEnd_le_size s addr
  have hline : s.SameLine addr (s.lineEnd addr) := sameLine_lineEnd (by omega)
  have hline' : s.SameLine start (s.lineEnd start) := sameLine_lineEnd (by omega)
  apply Nat.le_antisymm
  · refine le_lineEnd_of_sameLine ?_ (lineEnd_le_size s start) fun k hk hlt => ?_
    · have hle : start ≤ s.lineEnd start := le_lineEnd (by omega)
      omega
    · by_cases hbefore : k < start
      · exact hline k hk (by omega)
      · exact hline' k (by omega) hlt
  · exact le_lineEnd_of_sameLine hstart hsize fun k hk hlt => hline k (by omega) hlt

/-! ## Well-formed scripts -/

/-- What lies ahead of an address of a line is well formed up to the end of the line. -/
theorem wellFormed_restOfLine {start : Nat} (hpos : pos ≤ s.lineEnd start)
    (h : s.encoding.WellFormed (s.ahead pos)) :
    s.encoding.WellFormed (s.slice pos (s.lineEnd start)) := by
  obtain ⟨n, hn⟩ := Nat.exists_eq_add_of_le hpos
  have hsplit := s.slice_append_ahead pos n
  rw [← hn] at hsplit
  rw [← hsplit] at h
  cases hahead : s.ahead (s.lineEnd start) with
  | nil => simpa [hahead] using h
  | cons b rest =>
    have hlt : s.lineEnd start < s.size := by
      have hlength := s.length_ahead (s.lineEnd start)
      rw [hahead, List.length_cons] at hlength
      omega
    have hnewline : b = Byte.newline := by
      have hat := isAt_lineEnd hlt
      rwa [isAt_cons hahead, beq_iff_eq] at hat
    rw [hahead, hnewline] at h
    exact h.cut_newline

/-- **The rest of a line is whole from every ASCII byte on.** -/
theorem WellFormed.whole (hs : s.WellFormed) (hb : s.byte? pos = some b) (hascii : b < 0x80) :
    s.Whole false pos := by
  have hlt := lt_size_of_byte? hb
  obtain ⟨rest, hrest⟩ : ∃ rest, s.ahead pos = b :: rest := by
    rw [byte?_eq_head?] at hb
    exact List.head?_eq_some_iff.mp hb
  have hbytes : s.bytes.toList = s.slice 0 pos ++ b :: rest := by
    have hsplit := s.slice_append_ahead 0 pos
    rw [Nat.zero_add, hrest] at hsplit
    exact hsplit.symm
  have htail : s.encoding.WellFormed rest := by
    rw [WellFormed, hbytes] at hs
    exact hs.tail hascii
  have hahead : s.encoding.WellFormed (s.ahead pos) := by
    rw [hrest, ← List.singleton_append]
    exact (Encoding.WellFormed.of_ascii _ (by simpa [Bytes.IsAscii] using hascii)).append htail
  have hle : pos ≤ s.size := by omega
  exact whole_of_wellFormed hle (wellFormed_restOfLine (le_lineEnd hle) hahead) false

/-! ## Scans of the same line -/

namespace SameUpTo

section Line

variable (h : SameUpTo s t stop)
include h

private theorem isAt_eq (hpos : pos ≤ stop) (b : UInt8) : t.isAt pos b = s.isAt pos b := by
  rw [isAt, isAt, h.byte pos hpos]

private theorem holdsAt_eq (hpos : pos ≤ stop) (p : UInt8 → Bool) :
    t.holdsAt pos p = s.holdsAt pos p := by
  rw [holdsAt, holdsAt, h.byte pos hpos]

variable (hnewline : s.byte? stop = some Byte.newline)
include hnewline

private theorem lt_size : stop < t.size := by
  have hb := h.byte stop (Nat.le_refl stop)
  rw [hnewline] at hb
  exact lt_size_of_byte? hb

/-- Up to the newline there is the same byte in both scripts. -/
theorem exists_byte? (hpos : pos ≤ stop) : ∃ b, s.byte? pos = some b ∧ t.byte? pos = some b := by
  have hlt : pos < s.bytes.size := Nat.lt_of_le_of_lt hpos (lt_size_of_byte? hnewline)
  have hb : s.byte? pos = some s.bytes[pos] := Array.getElem?_eq_getElem hlt
  exact ⟨s.bytes[pos], hb, (h.byte pos hpos).trans hb⟩

private theorem slice_eq {start : Nat} (hpos : pos ≤ stop) :
    t.slice start pos = s.slice start pos := by
  have hs := lt_size_of_byte? hnewline
  have ht := h.lt_size hnewline
  unfold size at hs ht
  apply List.ext_getElem?
  intro i
  simp only [slice, Array.getElem?_toList, Array.getElem?_extract]
  rw [Nat.min_eq_left (by omega), Nat.min_eq_left (by omega)]
  split
  · exact h.byte (start + i) (by omega)
  · rfl

/-- A scan of bytes that stops at newlines. -/
theorem advanceWhile_eq {p : UInt8 → Bool} (hp : p Byte.newline = false) (hpos : pos ≤ stop) :
    s.advanceWhile p pos ≤ stop ∧ t.advanceWhile p pos = s.advanceWhile p pos := by
  -- Every byte that is passed over leaves less distance to the newline.
  induction hdist : stop - pos generalizing pos with
  | zero =>
    obtain rfl : pos = stop := by omega
    obtain ⟨b, hs, ht⟩ := h.exists_byte? hnewline (Nat.le_refl pos)
    cases hnewline.symm.trans hs
    rw [advanceWhile_of_byte? hs, advanceWhile_of_byte? ht, hp]
    simp
  | succ dist ih =>
    obtain ⟨b, hs, ht⟩ := h.exists_byte? hnewline hpos
    rw [advanceWhile_of_byte? hs, advanceWhile_of_byte? ht]
    split
    · exact ih (by omega) (by omega)
    · exact ⟨hpos, rfl⟩

private theorem name?_eq (hpos : pos ≤ stop) : t.name? pos = s.name? pos := by
  obtain ⟨hle, hafter⟩ := h.advanceWhile_eq hnewline (p := Byte.isNameByte) (by decide) hpos
  simp only [name?, h.holdsAt_eq hpos, hafter, h.slice_eq hnewline hle]

/-- A character on a whole line is as wide in both scripts. -/
theorem charWidth_eq {narrow : Bool} (hs : s.byte? pos = some b) (ht : t.byte? pos = some b)
    (hnext : pos + s.charWidth narrow pos ≤ stop) : t.charWidth narrow pos = s.charWidth narrow pos := by
  have hsize := lt_size_of_byte? hnewline
  have hsize' := h.lt_size hnewline
  rw [charWidth_of_byte? hs] at hnext ⊢
  rw [charWidth_of_byte? ht, h.encoding]
  omega

/-- A scan of characters that stops at newlines. -/
theorem advanceChars_eq {narrow : Bool} {p : UInt8 → Bool} (hp : p Byte.newline = true)
    {start : Nat}
    (hwhole : ∀ pos, s.Walks narrow start pos → pos ≤ stop) (hpos : s.Walks narrow start pos) :
    t.advanceChars narrow p pos = s.advanceChars narrow p pos := by
  induction hdist : stop - pos using Nat.strongRecOn generalizing pos with
  | ind dist ih =>
    obtain ⟨b, hs, ht⟩ := h.exists_byte? hnewline (hwhole pos hpos)
    rw [advanceChars_of_byte? hs, advanceChars_of_byte? ht]
    split
    · rfl
    · next hpb =>
      have hplain : b ≠ Byte.newline := by
        rintro rfl
        exact hpb hp
      have hnext := hpos.char hs hplain
      have hle := hwhole _ hnext
      have hwidth := s.charWidth_pos narrow (lt_size_of_byte? hs)
      rw [h.charWidth_eq hnewline hs ht hle]
      exact ih _ (by omega) hnext rfl

private theorem skipToLineEnd_eq {narrow : Bool} {start : Nat}
    (hwhole : ∀ pos, s.Walks narrow start pos → pos ≤ stop) (hpos : s.Walks narrow start pos) :
    t.skipToLineEnd narrow pos = s.skipToLineEnd narrow pos :=
  h.advanceChars_eq hnewline rfl hwhole hpos

/-- The look for the end of a target, if it stops on the line. -/
theorem targetEnd_eq {depth : Nat} (hpos : pos ≤ stop) (hstop : s.targetEnd depth pos ≤ stop) :
    t.targetEnd depth pos = s.targetEnd depth pos := by
  induction hdist : stop - pos generalizing depth pos with
  | zero =>
    obtain rfl : pos = stop := by omega
    have hb := (h.byte pos (Nat.le_refl pos)).trans hnewline
    rw [targetEnd_newline hnewline] at hstop ⊢
    rw [targetEnd_newline hb]
    split at hstop
    · have hle := s.le_targetEnd depth (pos + 1)
      omega
    · next hclosed => rw [if_neg hclosed, if_neg hclosed]
  | succ dist ih =>
    obtain ⟨b, hs, ht⟩ := h.exists_byte? hnewline hpos
    rcases targetEnd_step b depth with ⟨next, hnext⟩ | hend
    · rw [hnext hs] at hstop
      rw [hnext hs, hnext ht]
      exact ih (by omega) hstop (by omega)
    · rw [hend hs, hend ht]

private theorem isAssignment_eq (hpos : pos ≤ stop) (hstop : s.targetEnd 0 pos ≤ stop) :
    t.isAssignment pos = s.isAssignment pos := by
  rw [isAssignment, isAssignment, h.targetEnd_eq hnewline hpos hstop]
  simp only [h.isAt_eq hstop]
  cases hat : s.isAt (s.targetEnd 0 pos) Byte.equals with
  | false => simp
  | true =>
    -- An equals sign is not the newline, so the byte behind it is on the line, too.
    have hne : s.targetEnd 0 pos ≠ stop := by
      intro heq
      rw [heq, isAt, hnewline] at hat
      exact absurd hat (by decide)
    rw [h.isAt_eq (by omega)]

private theorem tagAt_eq (hwhole : ∀ next, s.Walks false pos next → next ≤ stop)
    (hat : s.byte? pos = some Byte.leftBracket) : t.tagAt pos = s.tagAt pos := by
  have hsize : pos ≤ s.size := by
    have hlt := lt_size_of_byte? hat
    omega
  have hscans := lineScans_walks hsize false
  have hopen : s.Walks false pos (pos + 1) := hscans.ascii hat (by decide) .start
  have hclose : s.Walks false pos
      (s.advanceChars false (fun b => b == Byte.newline || b == Byte.rightBracket) (pos + 1)) :=
    hscans.advanceChars rfl hopen
  have hle := hwhole _ hclose
  have hend : t.advanceChars false (fun b => b == Byte.newline || b == Byte.rightBracket) (pos + 1) =
      s.advanceChars false (fun b => b == Byte.newline || b == Byte.rightBracket) (pos + 1) :=
    h.advanceChars_eq hnewline rfl hwhole hopen
  simp only [tagAt, hend, h.slice_eq hnewline hle, h.isAt_eq hle]

private theorem commandAt_eq {start : Nat} {forced : Bool} (hpos : pos ≤ stop) :
    t.commandAt start pos forced = s.commandAt start pos forced := by
  rw [commandAt, commandAt, h.name?_eq hnewline hpos]

end Line

end SameUpTo

/-- If the look for the end of a target passes the newline, some brackets are open there, as many in
every script with the same line. -/
theorem exists_depth_of_lt_targetEnd {depth : Nat} (hnewline : s.byte? stop = some Byte.newline)
    (hpos : pos ≤ stop) (hpassed : stop < s.targetEnd depth pos) :
    ∃ left, ∀ t, SameUpTo s t stop → t.targetEnd depth pos = t.targetEnd left (stop + 1) := by
  induction hdist : stop - pos generalizing depth pos with
  | zero =>
    obtain rfl : pos = stop := by omega
    rw [targetEnd_newline hnewline] at hpassed
    have hopen : 0 < depth := by
      by_contra hclosed
      rw [if_neg hclosed] at hpassed
      omega
    refine ⟨depth, fun t h => ?_⟩
    rw [targetEnd_newline ((h.byte pos (Nat.le_refl pos)).trans hnewline), if_pos hopen]
  | succ dist ih =>
    have hlt : pos < s.bytes.size := Nat.lt_of_le_of_lt hpos (lt_size_of_byte? hnewline)
    have hb : s.byte? pos = some s.bytes[pos] := Array.getElem?_eq_getElem hlt
    rcases targetEnd_step s.bytes[pos] depth with ⟨next, hnext⟩ | hend
    · rw [hnext hb] at hpassed
      obtain ⟨left, hsame⟩ := ih (by omega) hpassed (by omega)
      refine ⟨left, fun t h => ?_⟩
      rw [hnext ((h.byte pos hpos).trans hb), hsame t h]
    · rw [hend hb] at hpassed
      omega

/-! ## Statements on the same line -/

/-- From an ASCII byte of the line on, all walks stay on the line. -/
theorem WellFormed.walks_le (hs : s.WellFormed) {addr start : Nat} (haddr : addr ≤ start)
    (hstart : start ≤ s.lineEnd addr) (hb : s.byte? start = some b) (hascii : b < 0x80) :
    ∀ pos, s.Walks false start pos → pos ≤ s.lineEnd addr := by
  rw [← lineEnd_eq haddr hstart]
  exact hs.whole hb hascii

section Statement

variable {addr : Nat} (hline : s.lineEnd addr < s.size)
include hline

private theorem byte?_lineEnd : s.byte? (s.lineEnd addr) = some Byte.newline :=
  beq_iff_eq.mp (isAt_lineEnd hline)

private theorem le_lineEnd_of_lt_size : addr ≤ s.lineEnd addr := by
  have hmin : min addr s.size ≤ s.lineEnd addr := le_advanceWhile s _ _
  omega

/-- The statement at an address starts at the same place with every continuation. -/
theorem SameUpTo.start_eq (h : SameUpTo s t (s.lineEnd addr)) :
    s.skipSeparators (min addr s.size) ≤ s.lineEnd addr ∧
      t.skipSeparators (min addr t.size) = s.skipSeparators (min addr s.size) := by
  have hnewline := byte?_lineEnd hline
  have haddr := le_lineEnd_of_lt_size hline
  have ht := h.lt_size hnewline
  rw [Nat.min_eq_left (by omega), Nat.min_eq_left (by omega)]
  exact h.advanceWhile_eq hnewline (by decide) haddr

/-- **A statement without a bracket that is left open depends on its line only.** -/
theorem SameUpTo.statementAt_eq (hs : s.WellFormed) (hopen : ¬ s.BracketLeftOpen addr)
    (h : SameUpTo s t (s.lineEnd addr)) (tags : Bool) :
    t.statementAt addr tags = s.statementAt addr tags := by
  have hnewline := byte?_lineEnd hline
  obtain ⟨hle, hstart⟩ := h.start_eq hline
  have hbelow : addr ≤ s.skipSeparators (min addr s.size) := by
    have hmin : min addr s.size ≤ s.skipSeparators (min addr s.size) := le_advanceWhile s _ _
    have haddr := le_lineEnd_of_lt_size hline
    omega
  unfold BracketLeftOpen at hopen
  rw [statementAt, statementAt, hstart]
  generalize s.skipSeparators (min addr s.size) = start at hle hbelow hopen
  obtain ⟨b, hb, hbt⟩ := h.exists_byte? hnewline hle
  rw [hb, hbt]
  dsimp only
  have hwalks := fun hascii => hs.walks_le hbelow hle hb (b := b) hascii
  -- One case for each kind of statement, in the order in which they are told apart.
  refine ite_congr rfl (fun _ => rfl) fun hplain => ?_
  have hlt : start < s.lineEnd addr := lt_lineEnd hle hb (by simpa using hplain)
  refine ite_congr rfl (fun hsemicolon => ?_) fun _ => ?_
  · have hascii : b < 0x80 := beq_iff_eq.mp hsemicolon ▸ by decide
    rw [h.skipToLineEnd_eq hnewline (hwalks hascii) .start]
  have hnextle : start + 1 ≤ s.lineEnd addr := hlt
  rw [h.holdsAt_eq hnextle, h.holdsAt_eq hnextle, h.name?_eq hnewline hnextle]
  refine ite_congr rfl (fun hlabel => ?_) fun _ => ?_
  · have hasterisk := beq_iff_eq.mp (Bool.and_eq_true_iff.mp hlabel).1
    have hascii : b < 0x80 := hasterisk ▸ by decide
    have hsize : start ≤ s.size := Nat.le_of_lt (lt_size_of_byte? hb)
    have hscans := lineScans_walks hsize false
    have hnext : s.Walks false start (start + 1) := hscans.ascii hb (hasterisk ▸ by decide) .start
    have hafter := hscans.getD_name? hnext
    simp only [h.skipToLineEnd_eq hnewline (hwalks hascii) hafter]
  refine ite_congr rfl (fun _ => rfl) fun _ => ?_
  refine ite_congr rfl (fun htag => ?_) fun _ => ?_
  · have hbracket := beq_iff_eq.mp (Bool.and_eq_true_iff.mp htag).1
    exact h.tagAt_eq hnewline (hwalks (hbracket ▸ by decide)) (hbracket ▸ hb)
  refine ite_congr rfl (fun _ => h.commandAt_eq hnewline hnextle) fun _ => ?_
  refine ite_congr rfl (fun _ => h.commandAt_eq hnewline hle) fun _ => ?_
  -- Only the look for the end of a target could go on behind the newline.
  cases hsigil : Byte.isSigil b with
  | false => simp
  | true =>
    have hstop : s.targetEnd 0 start ≤ s.lineEnd addr := by
      by_contra hpassed
      refine hopen ⟨?_, by omega⟩
      rw [holdsAt, hb, Option.any_some, hsigil]
    rw [h.isAssignment_eq hnewline hle hstop]

end Statement

/-! ## Other lines behind the newline -/

/-- The script up to and including an address, with other bytes behind it. -/
def goingOnWith (s : Script) (stop : Nat) (rest : Bytes) : Script :=
  { bytes := (s.slice 0 (stop + 1) ++ rest).toArray, encoding := s.encoding }

section GoingOn

variable (hnewline : s.byte? stop = some Byte.newline) (rest : Bytes)
include hnewline

private theorem sameUpTo_goingOnWith : SameUpTo s (s.goingOnWith stop rest) stop := by
  have hsize := lt_size_of_byte? hnewline
  have hlength : (s.slice 0 (stop + 1)).length = stop + 1 := length_slice hsize
  refine ⟨rfl, fun pos hpos => ?_⟩
  unfold byte? goingOnWith
  rw [List.getElem?_toArray, List.getElem?_append_left (by omega), slice, Array.getElem?_toList,
    Array.getElem?_extract, if_pos (by unfold size at hsize; omega), Nat.zero_add]

private theorem ahead_goingOnWith : (s.goingOnWith stop rest).ahead (stop + 1) = rest := by
  have hlength : (s.slice 0 (stop + 1)).length = stop + 1 := length_slice (lt_size_of_byte? hnewline)
  rw [ahead, goingOnWith, List.toList_toArray]
  exact List.drop_left' hlength

private theorem WellFormed.goingOnWith (hs : s.WellFormed) (hrest : rest.IsAscii) :
    (s.goingOnWith stop rest).WellFormed := by
  obtain ⟨behind, hahead⟩ : ∃ behind, s.ahead stop = Byte.newline :: behind := by
    rw [byte?_eq_head?] at hnewline
    exact List.head?_eq_some_iff.mp hnewline
  have hbytes : s.bytes.toList = s.slice 0 stop ++ Byte.newline :: behind := by
    have hsplit := s.slice_append_ahead 0 stop
    rw [Nat.zero_add, hahead] at hsplit
    exact hsplit.symm
  have hline : s.slice 0 (stop + 1) = s.slice 0 stop ++ [Byte.newline] := by
    have hfront : s.ahead 0 = (s.slice 0 stop ++ [Byte.newline]) ++ behind := by
      simpa [ahead] using hbytes
    have hlength : (s.slice 0 stop).length = stop := length_slice (Nat.le_of_lt (lt_size_of_byte? hnewline))
    have hslice := slice_append hfront
    rwa [List.length_append, hlength, Nat.zero_add] at hslice
  rw [WellFormed, hbytes] at hs
  show s.encoding.WellFormed (s.slice 0 (stop + 1) ++ rest)
  rw [hline, List.append_assoc]
  exact hs.cut_newline.append (.of_ascii _ (List.forall_mem_cons.mpr ⟨by decide, hrest⟩))

end GoingOn

/-- A statement that begins with a sigil is an assignment or text. -/
theorem kind_of_sigil {addr start : Nat} (hstart : s.skipSeparators (min addr s.size) = start)
    (hb : s.byte? start = some b) (hsigil : Byte.isSigil b = true) (tags : Bool) :
    (s.statementAt addr tags).kind =
      if s.isAssignment start then .command { name := "mov", forced := true, assignment := true }
      else .text := by
  have hcases : b = Byte.percent ∨ b = Byte.dollar ∨ b = Byte.question := by
    simpa [Byte.isSigil, or_assoc] using hsigil
  have hothers : (b == Byte.newline) = false ∧ (b == Byte.semicolon) = false ∧
      (b == Byte.asterisk) = false ∧ (b == Byte.tilde) = false ∧ (b == Byte.leftBracket) = false ∧
      (b == Byte.underscore) = false ∧ Byte.isAlpha b = false := by
    rcases hcases with rfl | rfl | rfl <;> decide
  rw [statementAt, hstart, hb]
  simp only [hothers, hsigil, Bool.false_and, Bool.true_and, Bool.false_eq_true, if_false]
  split <;> rfl

/-- Nothing behind the newline: the line is text. -/
theorem isAssignment_goingOnWith_nil {depth : Nat} (hnewline : s.byte? stop = some Byte.newline)
    (hsame : (s.goingOnWith stop []).targetEnd 0 pos =
      (s.goingOnWith stop []).targetEnd depth (stop + 1)) :
    (s.goingOnWith stop []).isAssignment pos = false := by
  have hahead := ahead_goingOnWith hnewline []
  have hlength := (s.goingOnWith stop []).length_ahead (stop + 1)
  rw [hahead, List.length_nil] at hlength
  have hend := (s.goingOnWith stop []).le_targetEnd depth (stop + 1)
  have hat : (s.goingOnWith stop []).isAt ((s.goingOnWith stop []).targetEnd 0 pos) Byte.equals =
      false := by
    apply Bool.eq_false_iff.mpr
    intro hat
    have hlt := lt_size_of_isAt hat
    omega
  simp [isAssignment, hat]

/-- All brackets closed behind the newline, and then an equals sign: the line is an assignment. -/
theorem isAssignment_goingOnWith_closing {depth : Nat} (hnewline : s.byte? stop = some Byte.newline)
    {t : Script} (ht : t = s.goingOnWith stop (List.replicate depth Byte.rightBracket ++ [Byte.equals]))
    (hsame : t.targetEnd 0 pos = t.targetEnd depth (stop + 1)) : t.isAssignment pos = true := by
  have hahead : t.ahead (stop + 1) = List.replicate depth Byte.rightBracket ++ [Byte.equals] := by
    rw [ht]
    exact ahead_goingOnWith hnewline _
  have hequals : t.ahead (stop + 1 + depth) = [Byte.equals] := by
    have hafter := ahead_add_length hahead
    rwa [List.length_replicate] at hafter
  have hend : t.targetEnd 0 pos = stop + 1 + depth := hsame.trans (targetEnd_closing hahead)
  simp [isAssignment, hend, isAt_cons hequals, isAt_eq_false, ahead_succ hequals]

/-- **With a bracket that is left open the same line is text or an assignment.** -/
theorem exists_both_kinds {addr : Nat} (hs : s.WellFormed) (hline : s.lineEnd addr < s.size)
    (hopen : s.BracketLeftOpen addr) :
    ∃ t u : Script, (t.WellFormed ∧ SameUpTo s t (s.lineEnd addr)) ∧
      (u.WellFormed ∧ SameUpTo s u (s.lineEnd addr)) ∧
      ∀ tags, (t.statementAt addr tags).kind = .text ∧ (u.statementAt addr tags).kind =
        .command { name := "mov", forced := true, assignment := true } := by
  have hnewline := byte?_lineEnd hline
  obtain ⟨hsigil, hpassed⟩ := hopen
  obtain ⟨b, hb, hsigil⟩ := (Option.any_eq_true _ _).mp hsigil
  have hnone := sameUpTo_goingOnWith hnewline []
  obtain ⟨hle, hstart⟩ := hnone.start_eq hline
  obtain ⟨left, hsame⟩ := exists_depth_of_lt_targetEnd hnewline hle hpassed
  have hascii : Bytes.IsAscii (List.replicate left Byte.rightBracket ++ [Byte.equals]) := by
    intro c hc
    rcases List.mem_append.mp hc with hc | hc
    · exact List.eq_of_mem_replicate hc ▸ by decide
    · exact List.mem_singleton.mp hc ▸ by decide
  have hclosed := sameUpTo_goingOnWith hnewline (List.replicate left Byte.rightBracket ++ [Byte.equals])
  refine ⟨_, _, ⟨hs.goingOnWith hnewline [] nofun, hnone⟩, ⟨hs.goingOnWith hnewline _ hascii, hclosed⟩,
    fun tags => ⟨?_, ?_⟩⟩
  · rw [kind_of_sigil hstart ((hnone.byte _ hle).trans hb) hsigil,
      isAssignment_goingOnWith_nil hnewline (hsame _ hnone)]
    rfl
  · rw [kind_of_sigil (hclosed.start_eq hline).2 ((hclosed.byte _ hle).trans hb) hsigil,
      isAssignment_goingOnWith_closing hnewline rfl (hsame _ hclosed)]
    rfl

/-- **The kind, the start, the end and the warnings of a statement depend on its line only, exactly
if no bracket behind a sigil is left open on the line.** -/
theorem statementAt_local_iff {addr : Nat} (hs : s.WellFormed) (hline : s.lineEnd addr < s.size) :
    (∀ t : Script, t.WellFormed → SameUpTo s t (s.lineEnd addr) →
      ∀ tags, t.statementAt addr tags = s.statementAt addr tags) ↔ ¬ s.BracketLeftOpen addr := by
  constructor
  · intro hlocal hopen
    obtain ⟨t, u, ⟨ht, hst⟩, ⟨hu, hsu⟩, hkinds⟩ := exists_both_kinds hs hline hopen
    obtain ⟨htext, hassignment⟩ := hkinds false
    rw [hlocal t ht hst] at htext
    rw [hlocal u hu hsu, htext] at hassignment
    cases hassignment
  · intro hopen t _ hst tags
    exact hst.statementAt_eq hline hs hopen tags

/-- An array element as target, and text behind the line. -/
def closedBracket : Script :=
  { bytes := (Bytes.ofText "?0[1]=2\ntext\n").toArray, encoding := .shiftJis }

/-- The closed bracket ends on the line, so that the text behind the line does not matter. -/
theorem statementAt_local_closedBracket :
    closedBracket.WellFormed ∧ closedBracket.lineEnd 0 < closedBracket.size ∧
      ∀ t : Script, t.WellFormed → SameUpTo closedBracket t (closedBracket.lineEnd 0) →
        ∀ tags, t.statementAt 0 tags = closedBracket.statementAt 0 tags := by
  have hs : closedBracket.WellFormed := by
    show Text.ShiftJis.wellFormedAfter false _ = true
    decide +kernel
  have hline : closedBracket.lineEnd 0 < closedBracket.size := by decide +kernel
  exact ⟨hs, hline, (statementAt_local_iff hs hline).mpr (by decide +kernel)⟩

/-- A line of text with a bracket that is left open, and other lines behind it. -/
def openBracket (rest : String) : Script :=
  { bytes := (Bytes.ofText ("?[\n" ++ rest)).toArray, encoding := .shiftJis }

/-- The second line turns the first one into an assignment. -/
theorem statementAt_apart_openBracket :
    (openBracket "]=1\n").WellFormed ∧ (openBracket "text\n").WellFormed ∧
      SameUpTo (openBracket "]=1\n") (openBracket "text\n") ((openBracket "]=1\n").lineEnd 0) ∧
      ((openBracket "]=1\n").statementAt 0 false).kind =
        .command { name := "mov", forced := true, assignment := true } ∧
      ((openBracket "text\n").statementAt 0 false).kind = .text := by
  have hline : (openBracket "]=1\n").lineEnd 0 = 2 := by decide +kernel
  refine ⟨?_, ?_, ⟨rfl, ?_⟩, by decide +kernel, by decide +kernel⟩
  · show Text.ShiftJis.wellFormedAfter false _ = true
    decide +kernel
  · show Text.ShiftJis.wellFormedAfter false _ = true
    decide +kernel
  · rw [hline]
    decide +kernel

end NovelScript.Script
