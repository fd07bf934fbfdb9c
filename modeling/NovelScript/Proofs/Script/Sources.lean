import Mathlib.Data.List.Forall2
import NovelScript.Proofs.Script.Numbering
import NovelScript.Script.Source

/-!
# The lines of source files

A source file is a list of lines. A line ends with a carriage return, a newline or both; the last
line may have no end. The script that is made of some files has the lines of all of them, in order,
each with a newline behind it.
-/

namespace NovelScript

/-! ## Lines of a source file -/

namespace Script

/-- The bytes that end a line of a source file. -/
inductive IsLineEnd : Bytes → Prop where
  /-- A carriage return and a newline. -/
  | both : IsLineEnd [Byte.carriageReturn, Byte.newline]
  /-- A carriage return alone. -/
  | carriageReturn : IsLineEnd [Byte.carriageReturn]
  /-- A newline alone. -/
  | newline : IsLineEnd [Byte.newline]

/-- No line ends inside. -/
def IsPlainLine (line : Bytes) : Prop :=
  Byte.newline ∉ line ∧ Byte.carriageReturn ∉ line

/-- A source text falls apart into lines. -/
inductive SplitsInto : Bytes → List Bytes → Prop where
  /-- A text without bytes has no lines. -/
  | nil : SplitsInto [] []
  /-- The last line may have no end. -/
  | last {line : Bytes} (hline : IsPlainLine line) (hne : line ≠ []) : SplitsInto line [line]
  /-- A line with its end, in front of other lines. A newline after a carriage return belongs to the
  same end. -/
  | cons {line ending rest : Bytes} {lines : List Bytes} (hline : IsPlainLine line)
      (hending : IsLineEnd ending)
      (hwhole : ending = [Byte.carriageReturn] → rest.head? ≠ some Byte.newline)
      (hrest : SplitsInto rest lines) : SplitsInto (line ++ (ending ++ rest)) (line :: lines)

/-- The byte order mark. -/
def byteOrderMark : Bytes := [0xef, 0xbb, 0xbf]

/-- The text of a source file is what comes after the byte order mark, or else the whole file. -/
inductive HoldsText : Bytes → Bytes → Prop where
  /-- A file with a byte order mark. -/
  | marked (text : Bytes) : HoldsText (byteOrderMark ++ text) text
  /-- A file without one. -/
  | unmarked {text : Bytes} (h : ¬ byteOrderMark <+: text) : HoldsText text text

/-- A source file has the lines of its text. -/
def HoldsLines (file : Bytes) (lines : List Bytes) : Prop :=
  ∃ text, HoldsText file text ∧ SplitsInto text lines

/-- Lines with a newline behind each. -/
def endLines (lines : List Bytes) : Bytes :=
  lines.flatMap (· ++ [Byte.newline])

/-- The text of a script that is made of some source files. -/
def joinSources (files : List Bytes) : Bytes :=
  files.foldl appendSource []

/-- A text that is empty or ends with a newline. -/
def EndsLine (text : Bytes) : Prop :=
  text = [] ∨ text.getLast? = some Byte.newline

variable {text rest line ending file : Bytes} {lines : List Bytes} {b : UInt8}

private theorem isPlainLine_nil : IsPlainLine [] :=
  ⟨List.not_mem_nil, List.not_mem_nil⟩

private theorem IsPlainLine.cons (hline : IsPlainLine line) (hnewline : b ≠ Byte.newline)
    (hreturn : b ≠ Byte.carriageReturn) : IsPlainLine (b :: line) :=
  ⟨List.not_mem_cons_of_ne_of_not_mem hnewline.symm hline.1,
    List.not_mem_cons_of_ne_of_not_mem hreturn.symm hline.2⟩

/-- One more byte in front makes the first line longer. -/
theorem SplitsInto.exists_cons (h : SplitsInto rest lines) (hnewline : b ≠ Byte.newline)
    (hreturn : b ≠ Byte.carriageReturn) : ∃ lines, SplitsInto (b :: rest) lines := by
  cases h with
  | nil => exact ⟨_, .last (isPlainLine_nil.cons hnewline hreturn) (List.cons_ne_nil _ _)⟩
  | last hline hne => exact ⟨_, .last (hline.cons hnewline hreturn) (List.cons_ne_nil _ _)⟩
  | cons hline hending hwhole hrest =>
    exact ⟨_, .cons (hline.cons hnewline hreturn) hending hwhole hrest⟩

/-- Every text falls apart into lines. -/
theorem exists_splitsInto (text : Bytes) : ∃ lines, SplitsInto text lines := by
  have hbyte : ∀ (b : UInt8) (rest : Bytes), b ≠ Byte.carriageReturn →
      (∃ lines, SplitsInto rest lines) → ∃ lines, SplitsInto (b :: rest) lines := by
    rintro b rest hreturn ⟨lines, hrest⟩
    by_cases hnewline : b = Byte.newline
    · subst hnewline
      exact ⟨_, .cons isPlainLine_nil .newline nofun hrest⟩
    · exact hrest.exists_cons hnewline hreturn
  fun_induction unifyLineEnds text with
  | case1 => exact ⟨_, .nil⟩
  | case2 => exact ⟨_, .cons isPlainLine_nil .carriageReturn (by simp) .nil⟩
  | case3 b hreturn => exact hbyte b [] hreturn ⟨_, .nil⟩
  | case4 rest ih =>
    obtain ⟨lines, hrest⟩ := ih
    exact ⟨_, .cons isPlainLine_nil .both nofun hrest⟩
  | case5 c rest hnewline ih =>
    obtain ⟨lines, hrest⟩ := ih
    exact ⟨_, .cons isPlainLine_nil .carriageReturn (by simpa using hnewline) hrest⟩
  | case6 b c rest hreturn ih => exact hbyte b _ hreturn ih

/-- A text without carriage returns in front of another one keeps its line ends. -/
theorem unifyLineEnds_append (h : Byte.carriageReturn ∉ text) (rest : Bytes) :
    unifyLineEnds (text ++ rest) = text ++ unifyLineEnds rest := by
  induction text with
  | nil => rfl
  | cons b text ih =>
    obtain ⟨hb, htext⟩ := not_or.mp (List.mem_cons.not.mp h)
    rw [List.cons_append, List.cons_append, ← ih htext]
    cases text ++ rest with
    | nil => exact if_neg (Ne.symm hb)
    | cons c further => exact if_neg (Ne.symm hb)

/-- The end of a line becomes a newline. -/
theorem unifyLineEnds_ending (hending : IsLineEnd ending)
    (hwhole : ending = [Byte.carriageReturn] → rest.head? ≠ some Byte.newline) :
    unifyLineEnds (ending ++ rest) = Byte.newline :: unifyLineEnds rest := by
  cases hending with
  | both => rfl
  | carriageReturn =>
    cases rest with
    | nil => rfl
    | cons c further =>
      have hc : c ≠ Byte.newline := by simpa using hwhole rfl
      exact if_neg hc
  | newline => exact unifyLineEnds_append (by decide) rest

/-- A text that ends with a newline, or has nothing to end, is left as it is. -/
theorem endLine_of_endsLine (h : EndsLine text) : endLine text = text := by
  rw [endLine]
  rcases h with rfl | hlast
  · rfl
  · rw [hlast]
    exact if_pos rfl

/-- Every other text is given a newline. -/
theorem endLine_of_not_endsLine (h : ¬ EndsLine text) : endLine text = text ++ [Byte.newline] := by
  obtain ⟨hne, hlast⟩ := not_or.mp h
  rw [List.getLast?_eq_some_getLast hne, Option.some.injEq] at hlast
  rw [endLine, List.getLast?_eq_some_getLast hne]
  exact if_neg hlast

private theorem endsLine_append_newline (text : Bytes) : EndsLine (text ++ [Byte.newline]) :=
  .inr List.getLast?_concat

private theorem not_endsLine_append (hline : IsPlainLine line) (hne : line ≠ []) (front : Bytes) :
    ¬ EndsLine (front ++ line) := by
  rintro (hnil | hlast)
  · exact hne (List.append_eq_nil_iff.mp hnil).2
  · rw [List.getLast?_append_of_ne_nil _ hne] at hlast
    exact hline.1 (List.mem_of_getLast? hlast)

/-! ## Lines of a script -/

private theorem endLines_cons (line : Bytes) (lines : List Bytes) :
    endLines (line :: lines) = line ++ [Byte.newline] ++ endLines lines :=
  List.flatMap_cons

private theorem endsLine_append_endLines {front : Bytes} (h : EndsLine front) (lines : List Bytes) :
    EndsLine (front ++ endLines lines) := by
  induction lines generalizing front with
  | nil => rwa [endLines, List.flatMap_nil, List.append_nil]
  | cons line lines ih =>
    rw [endLines_cons, ← List.append_assoc, ← List.append_assoc]
    exact ih (endsLine_append_newline _)

/-- Behind other lines, a text gives its lines. -/
theorem endLine_append_unifyLineEnds (h : SplitsInto text lines) {front : Bytes}
    (hfront : EndsLine front) :
    endLine (front ++ unifyLineEnds text) = front ++ endLines lines := by
  induction h generalizing front with
  | nil =>
    rw [unifyLineEnds, endLines, List.flatMap_nil, List.append_nil, endLine_of_endsLine hfront]
  | last hline hne =>
    have hplain := unifyLineEnds_append hline.2 []
    rw [List.append_nil, unifyLineEnds, List.append_nil] at hplain
    rw [hplain, endLine_of_not_endsLine (not_endsLine_append hline hne front), endLines_cons]
    simp [endLines]
  | @cons line ending rest lines hline hending hwhole hrest ih =>
    have hnext := ih (endsLine_append_newline (front ++ line))
    rw [unifyLineEnds_append hline.2, unifyLineEnds_ending hending hwhole, endLines_cons]
    simpa using hnext

private theorem SplitsInto.isPlainLine (h : SplitsInto text lines) :
    ∀ line ∈ lines, IsPlainLine line := by
  induction h with
  | nil => exact List.forall_mem_nil _
  | last hline hne => exact List.forall_mem_singleton.mpr hline
  | cons hline hending hwhole hrest ih => exact List.forall_mem_cons.mpr ⟨hline, ih⟩

end Script

namespace Bytes

/-- The line in front of a newline is the first one. -/
theorem lines_append_newline {line : Bytes} (h : Byte.newline ∉ line) (rest : Bytes) :
    lines (line ++ Byte.newline :: rest) = line :: lines rest := by
  induction line with
  | nil => rfl
  | cons b line ih =>
    obtain ⟨hb, hline⟩ := not_or.mp (List.mem_cons.not.mp h)
    rw [List.cons_append, lines, if_neg (by simpa using Ne.symm hb), ih hline]

/-- Lines with newlines behind them are told apart again. -/
theorem lines_endLines {parts : List Bytes} (h : ∀ line ∈ parts, Byte.newline ∉ line) :
    lines (Script.endLines parts) = parts := by
  induction parts with
  | nil => rfl
  | cons line parts ih =>
    obtain ⟨hline, hparts⟩ := List.forall_mem_cons.mp h
    rw [Script.endLines_cons, List.append_assoc, List.singleton_append,
      lines_append_newline hline, ih hparts]

end Bytes

namespace Script

variable {text rest line ending file : Bytes} {lines : List Bytes} {b : UInt8}

/-! ## Source files -/

/-- A file with a byte order mark holds what comes after it; every other file is its own text. -/
theorem holdsText_dropMark (file : Bytes) : HoldsText file (dropMark file) := by
  rw [dropMark.eq_def]
  split
  · exact .marked _
  · next hunmarked =>
    refine .unmarked ?_
    rintro ⟨rest, rfl⟩
    exact hunmarked rest rfl

private theorem HoldsText.eq_dropMark (h : HoldsText file text) : text = dropMark file := by
  cases h with
  | marked => rfl
  | unmarked hunmarked =>
    rw [dropMark.eq_def]
    split
    · next rest => exact absurd ⟨rest, rfl⟩ hunmarked
    · rfl

/-- Every file has lines. -/
theorem exists_holdsLines (file : Bytes) : ∃ lines, HoldsLines file lines := by
  obtain ⟨lines, hlines⟩ := exists_splitsInto (dropMark file)
  exact ⟨lines, _, holdsText_dropMark file, hlines⟩

/-- Behind other files, a file adds its lines. -/
theorem appendSource_eq (h : HoldsLines file lines) (htext : EndsLine text) :
    appendSource text file = text ++ endLines lines := by
  obtain ⟨source, hsource, hlines⟩ := h
  rw [appendSource, ← hsource.eq_dropMark, endLine_append_unifyLineEnds hlines htext]

private theorem foldl_appendSource {files : List Bytes} {parts : List (List Bytes)}
    (h : List.Forall₂ HoldsLines files parts) (htext : EndsLine text) :
    files.foldl appendSource text = text ++ endLines parts.flatten := by
  induction h generalizing text with
  | nil => simp [endLines]
  | cons hfile hfiles ih =>
    rw [List.foldl_cons, appendSource_eq hfile htext, ih (endsLine_append_endLines htext _),
      List.flatten_cons, endLines, endLines, endLines, List.flatMap_append, List.append_assoc]

/-- The text of a script has the lines of its files. -/
theorem joinSources_eq {files : List Bytes} {parts : List (List Bytes)}
    (h : List.Forall₂ HoldsLines files parts) : joinSources files = endLines parts.flatten :=
  foldl_appendSource h (.inl rfl)

private theorem exists_forall₂_holdsLines (files : List Bytes) :
    ∃ parts, List.Forall₂ HoldsLines files parts := by
  induction files with
  | nil => exact ⟨_, .nil⟩
  | cons file files ih =>
    obtain ⟨lines, hlines⟩ := exists_holdsLines file
    obtain ⟨parts, hparts⟩ := ih
    exact ⟨_, .cons hlines hparts⟩

private theorem isPlainLine_of_mem {files : List Bytes} {parts : List (List Bytes)}
    (h : List.Forall₂ HoldsLines files parts) : ∀ line ∈ parts.flatten, IsPlainLine line := by
  induction h with
  | nil => exact List.forall_mem_nil _
  | cons hfile hfiles ih =>
    obtain ⟨text, -, hlines⟩ := hfile
    rw [List.flatten_cons]
    exact List.forall_mem_append.mpr ⟨hlines.isPlainLine, ih⟩

/-- The lines of a script are told apart again. -/
theorem lines_joinSources {files : List Bytes} {parts : List (List Bytes)}
    (h : List.Forall₂ HoldsLines files parts) :
    Bytes.lines (joinSources files) = parts.flatten := by
  rw [joinSources_eq h, Bytes.lines_endLines fun line hline => (isPlainLine_of_mem h line hline).1]

/-- A file has lines in one way only. -/
theorem rightUnique_holdsLines : Relator.RightUnique HoldsLines := by
  intro file lines other hlines hother
  have hone := lines_joinSources (.cons hlines .nil)
  rw [lines_joinSources (.cons hother .nil)] at hone
  simpa using hone.symm

private theorem carriageReturn_notMem_endLines (h : ∀ line ∈ lines, IsPlainLine line) :
    Byte.carriageReturn ∉ endLines lines := by
  intro hmem
  obtain ⟨line, hline, hmem⟩ := List.mem_flatMap.mp hmem
  rcases List.mem_append.mp hmem with hmem | hmem
  · exact (h line hline).2 hmem
  · exact absurd hmem (by decide)

/-- The text of a script has no carriage return and no unfinished line. -/
theorem joinSources_normal (files : List Bytes) :
    Byte.carriageReturn ∉ joinSources files ∧ EndsLine (joinSources files) := by
  obtain ⟨parts, hparts⟩ := exists_forall₂_holdsLines files
  rw [joinSources_eq hparts]
  exact ⟨carriageReturn_notMem_endLines (isPlainLine_of_mem hparts),
    endsLine_append_endLines (.inl rfl) _⟩

private theorem length_unifyLineEnds_le (text : Bytes) :
    (unifyLineEnds text).length ≤ text.length := by
  fun_induction unifyLineEnds text <;> simp only [List.length_cons, List.length_nil] at * <;> omega

private theorem length_endLine_le (text : Bytes) : (endLine text).length ≤ text.length + 1 := by
  by_cases h : EndsLine text
  · rw [endLine_of_endsLine h]
    omega
  · rw [endLine_of_not_endsLine h, List.length_append, List.length_singleton]

/-- Exactly the texts in normal form without a byte order mark are left as they are. -/
theorem joinSources_singleton_eq_self_iff : joinSources [text] = text ↔
    Byte.carriageReturn ∉ text ∧ EndsLine text ∧ ¬ byteOrderMark <+: text := by
  constructor
  · intro h
    obtain ⟨hreturn, hends⟩ := joinSources_normal [text]
    rw [h] at hreturn hends
    refine ⟨hreturn, hends, ?_⟩
    rintro ⟨rest, rfl⟩
    -- The mark is lost, and no more than one newline can be won.
    have hlength := congrArg List.length h
    have hended := length_endLine_le (unifyLineEnds rest)
    have hunified := length_unifyLineEnds_le rest
    have hjoined : joinSources [byteOrderMark ++ rest] = endLine (unifyLineEnds rest) := rfl
    rw [hjoined, List.length_append] at hlength
    have hmark : byteOrderMark.length = 3 := rfl
    omega
  · rintro ⟨hreturn, hends, hunmarked⟩
    have hplain := unifyLineEnds_append hreturn []
    rw [List.append_nil, unifyLineEnds, List.append_nil] at hplain
    show endLine (unifyLineEnds (dropMark text)) = text
    rw [← (HoldsText.unmarked hunmarked).eq_dropMark, hplain, endLine_of_endsLine hends]

/-- **A script has the lines of its source files.** Whatever the files hold, the text that is made
of them has no carriage return and is empty or ends with a newline; it consists of the lines of the
files, in order, each with a newline behind it, where the lines of a file are told from its text
without the byte order mark in one way only; and these are the lines of the text, so that none is
joined to another one, added or lost. This text is what a script is made of, from a text or from the
files of a folder once they are unmasked. To do the same to a text again changes nothing, exactly if
it has that form and no byte order mark. -/
theorem script_has_lines_of_sources (files : List Bytes) :
    Byte.carriageReturn ∉ joinSources files ∧ EndsLine (joinSources files) ∧
    (∃ parts, List.Forall₂ HoldsLines files parts ∧
      joinSources files = endLines parts.flatten ∧
      Bytes.lines (joinSources files) = parts.flatten ∧
      ∀ others, List.Forall₂ HoldsLines files others → others = parts) ∧
    (∀ text, joinSources [text] = text ↔
      Byte.carriageReturn ∉ text ∧ EndsLine text ∧ ¬ byteOrderMark <+: text) ∧
    (∀ file encoding, (ofSource file encoding).bytes.toList = joinSources [file]) ∧
    ∀ folder path encoding kind masked, findSource? folder = some (kind, masked) →
      masked.map kind.unmask = files →
        ∃ script, ofFolder folder path encoding = .ok script ∧
          script.bytes.toList = joinSources files := by
  obtain ⟨parts, hparts⟩ := exists_forall₂_holdsLines files
  obtain ⟨hreturn, hends⟩ := joinSources_normal files
  refine ⟨hreturn, hends, ⟨parts, hparts, joinSources_eq hparts, lines_joinSources hparts, ?_⟩,
    fun text => joinSources_singleton_eq_self_iff, fun file encoding => rfl, ?_⟩
  · exact fun others hothers => rightUnique_holdsLines.forall₂ hothers hparts
  · rintro folder path encoding kind masked hfind rfl
    rw [ofFolder, hfind]
    exact ⟨_, rfl, by rw [joinSources, List.foldl_map]⟩

/-- A folder with a carriage return at the end of one file, a file with nothing but a byte order
mark, and a newline at the beginning of the next file. -/
def numberedFolder : Folder where
  files := [("0.txt", byteOrderMark ++ Bytes.ofText "a\r\nb\rc\r"), ("01.txt", byteOrderMark),
    ("2.txt", Bytes.ofText "\n\r\nd")]

/-- Its script has the three lines of the first file, none of the second one, and the three lines of
the last one. -/
theorem script_has_lines_of_numberedFolder :
    findSource? numberedFolder = some (.numbered, numberedFolder.files.map Prod.snd) ∧
      ∃ script, ofFolder numberedFolder "game" none = .ok script ∧
        script.bytes.toList = Bytes.ofText "a\nb\nc\n\n\nd\n" := by
  have hfind : findSource? numberedFolder =
      some (.numbered, numberedFolder.files.map Prod.snd) := by decide +kernel
  obtain ⟨-, -, -, -, -, hfolder⟩ :=
    script_has_lines_of_sources (numberedFolder.files.map Prod.snd)
  obtain ⟨script, hscript, hbytes⟩ := hfolder numberedFolder "game" none _ _ hfind (by decide +kernel)
  exact ⟨hfind, script, hscript, hbytes.trans (by decide +kernel)⟩

end Script

end NovelScript
