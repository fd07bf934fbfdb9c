import NovelScript.Proofs.Label

/-!
# Whole lines in different scripts

The same lines can stand in two scripts, after other lines and before others. Addresses inside of
them then differ by a fixed amount: so do the starts of their lines and the labels that are defined
first in them, and there are as many newlines between any two of them.
-/

namespace NovelScript

namespace Bytes

variable {text rest : Bytes} {name : String}

/-- The text is made of whole lines: it is empty or ends with a newline. -/
def WholeLines (text : Bytes) : Prop :=
  text = [] ∨ text.getLast? = some Byte.newline

private theorem WholeLines.tail {b : UInt8} (h : WholeLines (b :: text)) : WholeLines text := by
  cases text with
  | nil => exact .inl rfl
  | cons c text =>
    have hlast := h.resolve_left (List.cons_ne_nil _ _)
    rw [List.getLast?_cons_cons] at hlast
    exact .inr hlast

/-- A whole line that does not begin with its newline goes on. -/
theorem WholeLines.ne_nil {b : UInt8} (h : WholeLines (b :: text)) (hb : ¬ b = Byte.newline) :
    text ≠ [] := by
  rintro rfl
  have hlast := h.resolve_left (List.cons_ne_nil _ _)
  simp only [List.getLast?_singleton, Option.some.injEq] at hlast
  exact hb hlast

/-- The lines of a text that begins with whole lines. -/
theorem lines_append (h : WholeLines text) : lines (text ++ rest) = lines text ++ lines rest := by
  induction text with
  | nil => rfl
  | cons b text ih =>
    rw [List.cons_append, lines, lines, ih h.tail]
    by_cases hb : b = Byte.newline
    · simp [hb]
    · obtain ⟨line, further, hlines⟩ := List.exists_cons_of_ne_nil (lines_ne_nil (h.ne_nil hb))
      simp [hb, hlines]

/-- Lines, each with its newline. -/
def unlines (lines : List Bytes) : Bytes :=
  lines.flatMap (· ++ [Byte.newline])

private theorem unlines_cons (line : Bytes) (further : List Bytes) :
    unlines (line :: further) = line ++ Byte.newline :: unlines further := by
  rw [unlines, List.flatMap_cons, List.append_assoc, List.singleton_append, unlines]

/-- The lines of a text of whole lines make up the text. -/
theorem unlines_lines (h : WholeLines text) : unlines (lines text) = text := by
  induction text with
  | nil => rfl
  | cons b text ih =>
    have hrest := ih h.tail
    rw [lines]
    by_cases hb : b = Byte.newline
    · simp [hb, unlines_cons, hrest]
    · obtain ⟨line, further, hlines⟩ := List.exists_cons_of_ne_nil (lines_ne_nil (h.ne_nil hb))
      rw [hlines, unlines_cons] at hrest
      simp [hb, hlines, unlines_cons, hrest]

/-! ## Labels of a text -/

/-- The names that label lines of a text define, in order. -/
def labelNames (text : Bytes) : List String :=
  (lines text).filterMap LabelTable.labelOfLine?

/-- Where the line that defines a name first begins. -/
def labelOffset? (text : Bytes) (name : String) : Option Nat :=
  ((LabelTable.marksOfLines (lines text) 0 0).find? (·.name == name)).map LabelTable.Mark.start

end Bytes

namespace LabelTable

variable {name : String}

/-- A mark after more bytes and lines. -/
def Mark.after (mark : Mark) (bytes lines : Nat) : Mark :=
  ⟨mark.name, mark.start + bytes, mark.line + lines⟩

private theorem marksOfLines_add (lines : List Bytes) (start number bytes count : Nat) :
    marksOfLines lines (start + bytes) (number + count) =
      (marksOfLines lines start number).map fun mark => mark.after bytes count := by
  induction lines generalizing start number with
  | nil => rfl
  | cons line lines ih =>
    have hrest := ih (start + line.length + 1) (number + 1)
    have hstart : start + bytes + line.length + 1 = start + line.length + 1 + bytes := by omega
    have hnumber : number + count + 1 = number + 1 + count := by omega
    rw [marksOfLines, marksOfLines, hstart, hnumber, hrest]
    cases labelOfLine? line with
    | none => rfl
    | some name => rfl

private theorem marksOfLines_append (lines further : List Bytes) (start number : Nat) :
    marksOfLines (lines ++ further) start number =
      marksOfLines lines start number ++
        marksOfLines further (start + (Bytes.unlines lines).length) (number + lines.length) := by
  induction lines generalizing start number with
  | nil => rfl
  | cons line lines ih =>
    have hstart : start + line.length + 1 + (Bytes.unlines lines).length =
        start + (Bytes.unlines (line :: lines)).length := by
      rw [Bytes.unlines_cons, List.length_append, List.length_cons]
      omega
    have hnumber : number + 1 + lines.length = number + (line :: lines).length := by
      rw [List.length_cons]
      omega
    rw [List.cons_append, marksOfLines, marksOfLines, ih, hstart, hnumber]
    cases labelOfLine? line with
    | none => rfl
    | some name => rfl

private theorem map_name_marksOfLines (lines : List Bytes) (start number : Nat) :
    (marksOfLines lines start number).map Mark.name = lines.filterMap labelOfLine? := by
  induction lines generalizing start number with
  | nil => rfl
  | cons line lines ih =>
    rw [marksOfLines, List.filterMap_cons]
    cases labelOfLine? line with
    | none => exact ih _ _
    | some name => exact congrArg (name :: ·) (ih _ _)

/-- A name stands in the table for the first line that defines it. -/
theorem map_start_find?_build (script : Script) (name : String) :
    ((build script).1.labels.find? (·.name == name)).map Label.start =
      Bytes.labelOffset? script.bytes.toList name := by
  have hfind := congrArg (List.find? (·.name == name)) (map_markOf_build script)
  rw [find?_firstMarks (List.not_mem_nil), List.find?_map] at hfind
  rw [Bytes.labelOffset?, ← hfind, Option.map_map]
  rfl

end LabelTable

namespace Bytes

variable {text rest : Bytes} {name : String}

private theorem isSome_labelOffset? :
    (labelOffset? text name).isSome = true ↔ name ∈ labelNames text := by
  rw [labelNames, ← LabelTable.map_name_marksOfLines (lines text) 0 0, labelOffset?]
  simp

/-- After whole lines that do not define a name, it is defined where the rest defines it. -/
theorem labelOffset?_append_of_notMem (hwhole : WholeLines text) (h : name ∉ labelNames text) :
    labelOffset? (text ++ rest) name = (labelOffset? rest name).map (· + text.length) := by
  have hnone : (LabelTable.marksOfLines (lines text) 0 0).find? (·.name == name) = none := by
    have hnone := isSome_labelOffset?.not.mpr h
    simpa [labelOffset?] using hnone
  have hrest := LabelTable.marksOfLines_add (lines rest) 0 0 text.length (lines text).length
  rw [labelOffset?, lines_append hwhole, LabelTable.marksOfLines_append, unlines_lines hwhole,
    List.find?_append, hnone, Option.none_or, hrest, List.find?_map, Option.map_map, labelOffset?,
    Option.map_map]
  rfl

/-- What comes after whole lines that define a name does not matter. -/
theorem labelOffset?_append_of_mem (hwhole : WholeLines text) (h : name ∈ labelNames text) :
    labelOffset? (text ++ rest) name = labelOffset? text name := by
  have hsome :
      ((LabelTable.marksOfLines (lines text) 0 0).find? (·.name == name)).isSome = true := by
    have hsome := isSome_labelOffset?.mpr h
    rwa [labelOffset?, Option.isSome_map] at hsome
  rw [labelOffset?, lines_append hwhole, LabelTable.marksOfLines_append, List.find?_append,
    Option.or_of_isSome hsome]
  rfl

end Bytes

/-! ## Excerpts -/

namespace Script

/-- Whole lines of a script, with what comes before and after them. -/
structure Excerpt (script : Script) where
  /-- The lines before. -/
  front : Bytes
  /-- The lines themselves. -/
  body : Bytes
  /-- What comes after them. -/
  back : Bytes
  /-- Together they are the script. -/
  text : script.bytes.toList = front ++ body ++ back
  /-- The lines before are whole. -/
  front_whole : Bytes.WholeLines front
  /-- So are the lines themselves. -/
  body_whole : Bytes.WholeLines body

namespace Excerpt

variable {s s' : Script} {name : String} {i j k : Nat}

/-- The address where the lines begin. -/
def start (e : Excerpt s) : Nat :=
  e.front.length

/-- The address belongs to the lines, or is the one right after them. -/
def Covers (e : Excerpt s) (addr : Nat) : Prop :=
  e.start ≤ addr ∧ addr ≤ e.start + e.body.length

private theorem ahead_add (e : Excerpt s) (hk : k ≤ e.body.length) :
    s.ahead (e.start + k) = e.body.drop k ++ e.back := by
  have hstart : s.ahead 0 = e.front ++ (e.body ++ e.back) := by
    rw [ahead, List.drop_zero, e.text, List.append_assoc]
  have hahead : s.ahead e.start = e.body ++ e.back := by
    simpa [start] using ahead_add_length hstart
  rw [Script.ahead_add, hahead, List.drop_append_of_le_length hk]

/-- An address that an excerpt covers lies inside the script. -/
theorem covers_le_size (e : Excerpt s) {addr : Nat} (h : e.Covers addr) : addr ≤ s.size := by
  have hsize : s.size = e.start + e.body.length + e.back.length := by
    rw [size, ← Array.length_toList, e.text]
    simp [start, Nat.add_assoc]
  have := h.2
  omega

private theorem isAt_add (e : Excerpt s) (hk : k < e.body.length) (b : UInt8) :
    s.isAt (e.start + k) b = (e.body[k]? == some b) := by
  rw [isAt, byte?_eq_head?, e.ahead_add (Nat.le_of_lt hk), List.head?_append, List.head?_drop,
    List.getElem?_eq_getElem hk, Option.some_or]

private theorem isLineStart_start (e : Excerpt s) : s.IsLineStart e.start := by
  rcases e.front_whole with hnil | hlast
  · exact .inl (by rw [start, hnil]; rfl)
  · obtain ⟨lines, hlines⟩ := List.getLast?_eq_some_iff.mp hlast
    have hahead : s.ahead 0 = lines ++ Byte.newline :: (e.body ++ e.back) := by
      rw [ahead, List.drop_zero, e.text, hlines]
      simp
    have hnewline := ahead_add_length hahead
    have hstart : e.start - 1 = 0 + lines.length := by
      rw [start, hlines, List.length_append, List.length_singleton]
      omega
    refine .inr ?_
    rw [hstart, isAt_cons hnewline, beq_self_eq_true]

/-- Line starts are told by the lines alone. -/
theorem isLineStart_add (e : Excerpt s) (hk : k ≤ e.body.length) :
    s.IsLineStart (e.start + k) ↔ k = 0 ∨ e.body[k - 1]? = some Byte.newline := by
  cases k with
  | zero => exact iff_of_true e.isLineStart_start (.inl rfl)
  | succ k =>
    have hat := e.isAt_add hk Byte.newline
    simp only [IsLineStart, ← Nat.add_assoc, Nat.add_sub_cancel, Nat.add_one_ne_zero, false_or, hat,
      beq_iff_eq]

/-- Whether two addresses are on the same line is told by the lines alone. -/
theorem sameLine_add (e : Excerpt s) (hj : j ≤ e.body.length) :
    s.SameLine (e.start + i) (e.start + j) ↔
      ∀ k, i ≤ k → k < j → e.body[k]? ≠ some Byte.newline := by
  constructor
  · intro h k hi hk
    have hat := h (e.start + k) (by omega) (by omega)
    rw [e.isAt_add (by omega)] at hat
    simpa using hat
  · intro h addr hi hj'
    obtain ⟨k, rfl⟩ := Nat.exists_eq_add_of_le (show e.start ≤ addr by omega)
    rw [e.isAt_add (by omega)]
    simpa using h k (by omega) (by omega)

/-- The newlines between two addresses are told by the lines alone. -/
theorem newlinesBetween_add (e : Excerpt s) (hi : i ≤ j) (hj : j ≤ e.body.length) :
    s.newlinesBetween (e.start + i) (e.start + j) =
      ((e.body.drop i).take (j - i)).count Byte.newline := by
  have hstop : e.start + j = e.start + i + (j - i) := by omega
  have hroom : j - i ≤ (e.body.drop i).length := by
    rw [List.length_drop]
    omega
  rw [newlinesBetween, hstop, slice_eq_take, e.ahead_add (by omega),
    List.take_append_of_le_length hroom]

/-! ## The same lines in two scripts -/

section Same

variable {e : Excerpt s} {e' : Excerpt s'} (hsame : e'.body = e.body)
include hsame

/-- Lines start at the same places of the same lines. -/
theorem exists_lineStart_add (hk : k ≤ e.body.length) :
    ∃ start ≤ k, s.lineStart (e.start + k) = e.start + start ∧
      s'.lineStart (e'.start + k) = e'.start + start := by
  have hsize : e.start + k ≤ s.size := e.covers_le_size ⟨by omega, by omega⟩
  have hsize' : e'.start + k ≤ s'.size := e'.covers_le_size ⟨by omega, by rw [hsame]; omega⟩
  have hfront : e.start ≤ s.lineStart (e.start + k) :=
    e.isLineStart_start.le_lineStart (Nat.le_add_right _ _) hsize
  obtain ⟨start, hstart⟩ := Nat.exists_eq_add_of_le hfront
  have hle : start ≤ k := by
    have := s.lineStart_le (e.start + k)
    omega
  have hline : s'.IsLineStart (e'.start + start) := by
    have hline := s.isLineStart_lineStart (e.start + k)
    rw [hstart, e.isLineStart_add (by omega)] at hline
    rwa [e'.isLineStart_add (by rw [hsame]; omega), hsame]
  have hplain : s'.SameLine (e'.start + start) (e'.start + k) := by
    have hplain := sameLine_lineStart hsize
    rw [hstart, e.sameLine_add hk] at hplain
    rwa [e'.sameLine_add (by rwa [hsame]), hsame]
  exact ⟨start, hle, hstart, hline.lineStart_eq (by omega) hsize' hplain⟩

/-- There are as many newlines between the same places of the same lines. -/
theorem newlinesBetween_eq (hi : i ≤ j) (hj : j ≤ e.body.length) :
    s'.newlinesBetween (e'.start + i) (e'.start + j) =
      s.newlinesBetween (e.start + i) (e.start + j) := by
  rw [e'.newlinesBetween_add hi (by rwa [hsame]), e.newlinesBetween_add hi hj, hsame]

end Same

/-- A name that the lines define, and no line before them, stands for a place in the lines that the
lines alone tell. -/
theorem labelOffset?_eq (e : Excerpt s) (hbody : name ∈ Bytes.labelNames e.body)
    (hfront : name ∉ Bytes.labelNames e.front) :
    Bytes.labelOffset? s.bytes.toList name =
      (Bytes.labelOffset? e.body name).map (· + e.start) := by
  rw [e.text, List.append_assoc, Bytes.labelOffset?_append_of_notMem e.front_whole hfront,
    Bytes.labelOffset?_append_of_mem e.body_whole hbody]
  rfl

end Excerpt

end Script

end NovelScript
