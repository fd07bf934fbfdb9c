import NovelScript.Label
import NovelScript.Proofs.Script.Numbering

/-!
# Label lines

A line defines a label if blanks, an asterisk and a name stand at its start. The marks of a script
are its label lines, in order and with their numbers. Those that count are the first ones of their
names.
-/

namespace NovelScript

/-! ## Names -/

namespace Byte

/-- The characters of names are in lower case, and no asterisks or zero characters. -/
theorem toLower_nameChar {b : UInt8} (h : isNameByte b = true) :
    (Char.ofNat (lower b).toNat).toLower = Char.ofNat (lower b).toNat ∧
      Char.ofNat (lower b).toNat ≠ '*' ∧ Char.ofNat (lower b).toNat ≠ '\x00' := by
  have hall : ∀ n : Fin 256, isNameByte (UInt8.ofFin n) = true →
      (Char.ofNat (lower (UInt8.ofFin n)).toNat).toLower =
          Char.ofNat (lower (UInt8.ofFin n)).toNat ∧
        Char.ofNat (lower (UInt8.ofFin n)).toNat ≠ '*' ∧
        Char.ofNat (lower (UInt8.ofFin n)).toNat ≠ '\x00' := by decide +kernel
  exact hall b.toFin h

end Byte

namespace Label

/-- A name is looked up in the form that it has. -/
theorem key_toName {bytes : Bytes} (h : ∀ b ∈ bytes, Byte.isNameByte b = true) :
    key (Bytes.toName bytes).toList = Bytes.toName bytes := by
  have hdrop : (bytes.map fun b => Char.ofNat (Byte.lower b).toNat).dropWhile (· == '*') =
      bytes.map fun b => Char.ofNat (Byte.lower b).toNat := by
    cases bytes with
    | nil => rfl
    | cons b rest =>
      have hb := (Byte.toLower_nameChar (h b List.mem_cons_self)).2.1
      rw [List.map_cons, List.dropWhile_cons_of_neg (by simpa using hb)]
  rw [key, Bytes.toName, String.toList_ofList, hdrop, List.map_map]
  congr 1
  exact List.map_congr_left fun b hb => (Byte.toLower_nameChar (h b hb)).1

/-- A name has no zero character. -/
theorem nul_notMem_toName {bytes : Bytes} (h : ∀ b ∈ bytes, Byte.isNameByte b = true) :
    '\x00' ∉ (Bytes.toName bytes).toList := by
  rw [Bytes.toName, String.toList_ofList]
  intro hmem
  obtain ⟨b, hb, hzero⟩ := List.mem_map.mp hmem
  exact (Byte.toLower_nameChar (h b hb)).2.2 hzero

end Label

namespace LabelTable

/-- The name of a label line is not empty, has no zero character, and is in the form in which it is
looked up. -/
theorem key_of_labelOfLine? {line : Bytes} {name : String} (h : labelOfLine? line = some name) :
    Label.key name.toList = name ∧ name.isEmpty = false ∧ '\x00' ∉ name.toList := by
  rw [labelOfLine?] at h
  split at h
  · cases h
  · next b rest _ =>
    obtain ⟨hlabel, hname⟩ := Option.ite_none_right_eq_some.mp h
    cases hname
    have hbytes : ∀ b ∈ rest.takeWhile Byte.isNameByte, Byte.isNameByte b = true :=
      fun b hb => List.mem_takeWhile_imp hb
    refine ⟨Label.key_toName hbytes, ?_, Label.nul_notMem_toName hbytes⟩
    have hsome : rest.takeWhile Byte.isNameByte ≠ [] := by
      simp only [Bool.and_eq_true, Bool.not_eq_true', List.isEmpty_eq_false_iff] at hlabel
      exact hlabel.2
    simpa [Bytes.toName] using hsome

end LabelTable

/-! ## Labels as they are written -/

namespace Script

variable {s : Script} {pos : Nat} {written : Bytes} {name : String}

/-- Blanks, an asterisk and the bytes of a name stand at an address, and no further name byte. -/
def SpellsLabel (s : Script) (pos : Nat) (written : Bytes) : Prop :=
  written ≠ [] ∧ (∀ b ∈ written, Byte.isNameByte b = true) ∧
    ∃ blanks rest, s.ahead pos = blanks ++ Byte.asterisk :: (written ++ rest) ∧
      (∀ b ∈ blanks, Byte.isBlank b = true) ∧ ∀ b ∈ rest.head?, Byte.isNameByte b = false

/-- A label is spelled inside the script. -/
theorem SpellsLabel.lt_size (h : s.SpellsLabel pos written) : pos < s.size := by
  obtain ⟨-, -, blanks, rest, hahead, -, -⟩ := h
  have hlength := length_ahead s pos
  rw [hahead] at hlength
  simp only [List.length_append, List.length_cons] at hlength
  omega

/-- A line begins at an address and defines the label with a name. -/
structure Defines (s : Script) (pos : Nat) (name : String) : Prop where
  /-- A line begins there. -/
  start : s.IsLineStart pos
  /-- It begins with the label, in upper or lower case. -/
  spelled : ∃ written, s.SpellsLabel pos written ∧ Bytes.toName written = name

/-- A definition stands inside the script. -/
theorem Defines.lt_size (h : s.Defines pos name) : pos < s.size := by
  obtain ⟨-, written, hspelled, -⟩ := h
  exact hspelled.lt_size

/-- The label of a line is spelled where the line begins. -/
theorem spelled_of_labelOfLine? {line rest : Bytes} (hahead : s.ahead pos = line ++ rest)
    (hrest : ∀ b ∈ rest.head?, b = Byte.newline) (h : LabelTable.labelOfLine? line = some name) :
    ∃ written, s.SpellsLabel pos written ∧ Bytes.toName written = name := by
  rw [LabelTable.labelOfLine?] at h
  split at h
  · cases h
  · next b tail hdrop =>
    obtain ⟨hmark, hname⟩ := Option.ite_none_right_eq_some.mp h
    simp only [Bool.and_eq_true, beq_iff_eq, Bool.not_eq_true', List.isEmpty_eq_false_iff] at hmark
    obtain ⟨rfl, hne⟩ := hmark
    have hsplit : line.takeWhile Byte.isBlank ++ Byte.asterisk :: tail = line := by
      rw [← hdrop, List.takeWhile_append_dropWhile]
    refine ⟨tail.takeWhile Byte.isNameByte, ⟨hne, fun b hb => List.mem_takeWhile_imp hb, ?_⟩, ?_⟩
    · refine ⟨line.takeWhile Byte.isBlank, tail.dropWhile Byte.isNameByte ++ rest, ?_,
        fun b hb => List.mem_takeWhile_imp hb, ?_⟩
      · rw [hahead, ← List.append_assoc (tail.takeWhile _), List.takeWhile_append_dropWhile,
          ← List.cons_append, ← List.append_assoc, hsplit]
      · -- What ends the name is another byte of the line, or the end of the line.
        intro b hb
        rw [List.head?_append] at hb
        rcases Option.or_eq_some_iff.mp hb with hb | ⟨-, hb⟩
        · have hstop := List.head?_dropWhile_not Byte.isNameByte tail
          rw [hb] at hstop
          simpa using hstop
        · rw [hrest b hb]
          rfl
    · simpa using hname

/-- A label that is spelled is the label of its line. -/
theorem SpellsLabel.labelOfLine? (h : s.SpellsLabel pos written) :
    LabelTable.labelOfLine? ((s.ahead pos).takeWhile (· != Byte.newline)) =
      some (Bytes.toName written) := by
  obtain ⟨hne, hwritten, blanks, rest, hahead, hblanks, hrest⟩ := h
  have hblanks' : ∀ b ∈ blanks, (b != Byte.newline) = true := by
    intro b hb
    rw [bne_iff_ne]
    rintro rfl
    cases hblanks _ hb
  have hwritten' : ∀ b ∈ written, (b != Byte.newline) = true := by
    intro b hb
    rw [bne_iff_ne]
    rintro rfl
    cases hwritten _ hb
  have hstop : (rest.takeWhile (· != Byte.newline)).takeWhile Byte.isNameByte = [] := by
    cases rest with
    | nil => rfl
    | cons b rest =>
      have hb := hrest b rfl
      by_cases hnewline : b = Byte.newline <;> simp [hnewline, hb]
  rw [hahead, List.takeWhile_append_of_pos hblanks', List.takeWhile_cons_of_pos (by decide),
    List.takeWhile_append_of_pos hwritten', LabelTable.labelOfLine?,
    List.dropWhile_append_of_pos hblanks, List.dropWhile_cons_of_neg (by decide)]
  simp only
  rw [List.takeWhile_append_of_pos hwritten, hstop, List.append_nil, if_pos (by simpa using hne)]

/-- The label of the line that begins at an address is the one that is spelled there. -/
theorem labelOfLine?_ahead_iff (s : Script) (pos : Nat) (name : String) :
    LabelTable.labelOfLine? ((s.ahead pos).takeWhile (· != Byte.newline)) = some name ↔
      ∃ written, s.SpellsLabel pos written ∧ Bytes.toName written = name := by
  constructor
  · refine spelled_of_labelOfLine? List.takeWhile_append_dropWhile.symm fun b hb => ?_
    have hstop := List.head?_dropWhile_not (· != Byte.newline) (s.ahead pos)
    rw [hb] at hstop
    simpa using hstop
  · rintro ⟨written, hspelled, rfl⟩
    exact hspelled.labelOfLine?

/-- A line defines a label exactly if it is a label line. -/
theorem IsLineStart.defines_iff (h : s.IsLineStart pos) : s.Defines pos name ↔
    LabelTable.labelOfLine? ((s.ahead pos).takeWhile (· != Byte.newline)) = some name := by
  rw [labelOfLine?_ahead_iff]
  exact ⟨fun hdefines => hdefines.spelled, fun hspelled => ⟨h, hspelled⟩⟩

end Script

namespace LabelTable

/-! ## Marks -/

/-- The first line has a mark if it is a label line. -/
theorem mem_marksOfLines_cons_iff {line : Bytes} {further : List Bytes} {start number : Nat}
    {mark : Mark} : mark ∈ marksOfLines (line :: further) start number ↔
      (mark.start = start ∧ labelOfLine? line = some mark.name ∧ mark.line = number) ∨
        mark ∈ marksOfLines further (start + line.length + 1) (number + 1) := by
  rw [marksOfLines]
  cases labelOfLine? line with
  | none => exact ⟨.inr, fun h => h.resolve_left nofun⟩
  | some name =>
    refine List.mem_cons.trans (or_congr_left ⟨?_, ?_⟩)
    · rintro rfl
      exact ⟨rfl, rfl, rfl⟩
    · obtain ⟨name', start', line'⟩ := mark
      rintro ⟨hstart, hname, hline⟩
      cases hstart
      cases hname
      cases hline
      rfl

/-- There is a mark for each line that defines a label, from a line on. -/
theorem mem_marksOfLines_iff {s : Script} {lines : List Bytes} {start number : Nat}
    (hlines : lines = Bytes.lines (s.ahead start)) (hstart : s.IsLineStart start)
    (hnumber : s.newlinesBetween 0 start = number) {mark : Mark} :
    mark ∈ marksOfLines lines start number ↔ start ≤ mark.start ∧
      s.Defines mark.start mark.name ∧ s.newlinesBetween 0 mark.start = mark.line := by
  induction lines generalizing start number with
  | nil =>
    -- Nothing is ahead, and so no label either.
    have hahead := Bytes.lines_eq_nil_iff.mp hlines.symm
    have hsize : s.size ≤ start := by
      have := s.length_ahead start
      rw [hahead, List.length_nil] at this
      omega
    refine iff_of_false List.not_mem_nil ?_
    rintro ⟨hle, hdefines, -⟩
    have := hdefines.lt_size
    omega
  | cons line further ih =>
    -- The marks of the other lines are the ones behind the first line.
    have hrest : mark ∈ marksOfLines further (start + line.length + 1) (number + 1) ↔
        start < mark.start ∧ s.Defines mark.start mark.name ∧
          s.newlinesBetween 0 mark.start = mark.line := by
      rcases Script.lines_behind hlines.symm with ⟨hfurther, hnext, hnumber'⟩ | ⟨rfl, hlast⟩
      · rw [ih hfurther hnext (hnumber'.trans (congrArg (· + 1) hnumber))]
        refine and_congr_left fun hmark => ⟨fun hle => by omega, fun hlt => ?_⟩
        rw [hnext.le_iff, hnumber']
        exact hmark.1.start.newlinesBetween_lt hlt
      · exact iff_of_false List.not_mem_nil fun h => hlast _ h.1 h.2.1.start
    have hlabel : labelOfLine? line = some mark.name ↔ s.Defines start mark.name := by
      rw [hstart.defines_iff, Bytes.line_eq_takeWhile hlines.symm]
    rw [mem_marksOfLines_cons_iff, hrest, hlabel]
    constructor
    · rintro (⟨heq, hdefines, hline⟩ | ⟨hlt, hmark⟩)
      · rw [heq, hline]
        exact ⟨Nat.le_refl _, hdefines, hnumber⟩
      · exact ⟨Nat.le_of_lt hlt, hmark⟩
    · rintro ⟨hle, hdefines, hline⟩
      rcases Nat.eq_or_lt_of_le hle with heq | hlt
      · exact .inl ⟨heq.symm, heq ▸ hdefines, by rw [← hline, ← heq, hnumber]⟩
      · exact .inr ⟨hlt, hdefines, hline⟩

/-- The marks of a script are the lines that define labels, with their numbers. -/
theorem mem_marks_iff {script : Script} {mark : Mark} :
    mark ∈ marksOfLines (Bytes.lines script.bytes.toList) 0 0 ↔
      script.Defines mark.start mark.name ∧ script.newlinesBetween 0 mark.start = mark.line := by
  have hlines : Bytes.lines script.bytes.toList = Bytes.lines (script.ahead 0) := rfl
  rw [mem_marksOfLines_iff hlines (.inl rfl) (Script.newlinesBetween_of_le (Nat.le_refl 0))]
  exact and_iff_right (Nat.zero_le _)

/-- Marks come in the order of their lines. -/
theorem sorted_marksOfLines (lines : List Bytes) (start number : Nat) :
    (∀ mark ∈ marksOfLines lines start number, start ≤ mark.start) ∧
      (marksOfLines lines start number).Pairwise fun a b => a.start < b.start := by
  induction lines generalizing start number with
  | nil => exact ⟨nofun, List.Pairwise.nil⟩
  | cons line lines ih =>
    obtain ⟨hbelow, hsorted⟩ := ih (start + line.length + 1) (number + 1)
    rw [marksOfLines]
    cases labelOfLine? line with
    | none =>
      refine ⟨fun mark hmark => ?_, hsorted⟩
      have hle := hbelow mark hmark
      omega
    | some name =>
      constructor
      · intro mark hmark
        rcases List.mem_cons.mp hmark with rfl | hmark
        · exact Nat.le_refl _
        · have hle := hbelow mark hmark
          omega
      · refine List.pairwise_cons.mpr ⟨fun mark hmark => ?_, hsorted⟩
        have hle := hbelow mark hmark
        show start < mark.start
        omega

/-! ## First marks -/

variable {marks : List Mark} {seen : List String} {mark : Mark} {name : String}

/-- The first marks of each name are some of all marks, in their order. -/
theorem sublist_firstMarks (marks : List Mark) (seen : List String) :
    (firstMarks marks seen).1.Sublist marks := by
  induction marks generalizing seen with
  | nil => exact .slnil
  | cons first marks ih =>
    rw [firstMarks]
    split
    · exact (ih seen).cons _
    · exact (ih _).cons_cons _

/-- No mark is kept whose name was seen. -/
theorem name_notMem_of_mem_firstMarks (h : mark ∈ (firstMarks marks seen).1) :
    mark.name ∉ seen := by
  induction marks generalizing seen with
  | nil => cases h
  | cons first marks ih =>
    rw [firstMarks] at h
    split at h
    · exact ih h
    · next hnew =>
      rcases List.mem_cons.mp h with rfl | h
      · exact hnew
      · exact fun hmem => ih h (List.mem_cons_of_mem _ hmem)

/-- Of marks in order, those are kept that are the first ones of their names. -/
theorem mem_firstMarks_iff (hsorted : marks.Pairwise fun a b => a.start < b.start) :
    mark ∈ (firstMarks marks seen).1 ↔ mark ∈ marks ∧ mark.name ∉ seen ∧
      ∀ other ∈ marks, other.name = mark.name → mark.start ≤ other.start := by
  induction marks generalizing seen with
  | nil => exact iff_of_false List.not_mem_nil fun h => List.not_mem_nil h.1
  | cons first marks ih =>
    obtain ⟨hfirst, hrest⟩ := List.pairwise_cons.mp hsorted
    rw [firstMarks]
    split
    · next hseen =>
      refine (ih hrest).trans ⟨fun ⟨hmem, hnew, hleast⟩ => ?_, fun ⟨hmem, hnew, hleast⟩ => ?_⟩
      · refine ⟨List.mem_cons_of_mem _ hmem, hnew, fun other hother heq => ?_⟩
        rcases List.mem_cons.mp hother with rfl | hother
        · exact absurd (heq ▸ hseen) hnew
        · exact hleast other hother heq
      · rcases List.mem_cons.mp hmem with rfl | hmem
        · exact absurd hseen hnew
        · exact ⟨hmem, hnew, fun other hother => hleast other (List.mem_cons_of_mem _ hother)⟩
    · next hnew =>
      rw [List.mem_cons, ih hrest]
      constructor
      · rintro (rfl | ⟨hmem, hother, hleast⟩)
        · refine ⟨List.mem_cons_self, hnew, fun other hmem _ => ?_⟩
          rcases List.mem_cons.mp hmem with rfl | hmem
          · exact Nat.le_refl _
          · exact Nat.le_of_lt (hfirst other hmem)
        · obtain ⟨hne, hseen⟩ := not_or.mp (List.mem_cons.not.mp hother)
          refine ⟨List.mem_cons_of_mem _ hmem, hseen, fun other hother heq => ?_⟩
          rcases List.mem_cons.mp hother with rfl | hother
          · exact absurd heq.symm hne
          · exact hleast other hother heq
      · rintro ⟨hmem, hseen, hleast⟩
        rcases List.mem_cons.mp hmem with rfl | hmem
        · exact .inl rfl
        · refine .inr ⟨hmem, fun hother => ?_, fun other hother =>
            hleast other (List.mem_cons_of_mem _ hother)⟩
          rcases List.mem_cons.mp hother with heq | hother
          · -- The first mark has the same name, and comes before.
            have hle := hleast first List.mem_cons_self heq.symm
            have hlt := hfirst mark hmem
            omega
          · exact hseen hother

/-- The marks that are kept have different names. -/
theorem pairwise_firstMarks (marks : List Mark) (seen : List String) :
    (firstMarks marks seen).1.Pairwise fun a b => a.name ≠ b.name := by
  induction marks generalizing seen with
  | nil => exact List.Pairwise.nil
  | cons first marks ih =>
    rw [firstMarks]
    split
    · exact ih seen
    · refine List.pairwise_cons.mpr ⟨fun mark hmark heq => ?_, ih _⟩
      exact name_notMem_of_mem_firstMarks hmark (heq ▸ List.mem_cons_self)

/-- Of the marks with a name that was not seen, the first one is kept. -/
theorem find?_firstMarks (h : name ∉ seen) :
    (firstMarks marks seen).1.find? (·.name == name) = marks.find? (·.name == name) := by
  induction marks generalizing seen with
  | nil => rfl
  | cons mark marks ih =>
    rw [firstMarks]
    split
    · next hseen =>
      have hother : ¬ mark.name = name := fun heq => h (heq ▸ hseen)
      rw [List.find?_cons_of_neg (by simpa using hother)]
      exact ih h
    · by_cases heq : mark.name = name
      · rw [List.find?_cons_of_pos (by simpa using heq),
          List.find?_cons_of_pos (by simpa using heq)]
      · rw [List.find?_cons_of_neg (by simpa using heq),
          List.find?_cons_of_neg (by simpa using heq)]
        exact ih fun hmem => (List.mem_cons.mp hmem).elim (fun h => heq h.symm) h

end LabelTable

end NovelScript
