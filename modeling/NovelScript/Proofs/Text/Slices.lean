import Mathlib.Data.List.Basic
import NovelScript.TextRun

/-!
# Characters that are cut out

Only the last character of a byte string may be shorter than its first byte says, because only
there the bytes may run out. So what some characters in a row are joined to has these characters
again, and counting and cutting out characters obey the laws of lists.
-/

namespace NovelScript.Encoding

variable {e : Encoding} {parts : List Bytes} {bytes : Bytes}

/-! ## Lists of characters -/

/-- The parts are what some byte string falls apart into: all but the last one are as long as their
first bytes say, and the last one is not longer. -/
inductive AreChars (e : Encoding) : List Bytes → Prop where
  /-- The empty string has no characters. -/
  | nil : AreChars e []
  /-- The last character may be cut off. -/
  | last {b : UInt8} {rest : Bytes} (h : rest.length < e.width false b) : AreChars e [b :: rest]
  /-- A character in front of others is complete. -/
  | cons {b : UInt8} {rest : Bytes} {parts : List Bytes} (h : rest.length + 1 = e.width false b)
      (hparts : AreChars e parts) : AreChars e ((b :: rest) :: parts)

private theorem areChars_chars (e : Encoding) (bytes : Bytes) : AreChars e (e.chars bytes) := by
  fun_induction chars e bytes with
  | case1 => exact .nil
  | case2 b rest more ih =>
    have hpos := e.width_pos false b
    have hmore : more = e.width false b - 1 := rfl
    rcases Nat.lt_or_ge rest.length more with hshort | hlong
    · rw [List.drop_eq_nil_of_le (Nat.le_of_lt hshort), chars]
      refine .last ?_
      rw [List.length_take]
      omega
    · refine .cons ?_ ih
      rw [List.length_take]
      omega

/-- **Characters that are joined are told apart again.** -/
theorem AreChars.chars_flatten (h : AreChars e parts) : e.chars parts.flatten = parts := by
  induction h with
  | nil => rw [List.flatten_nil, chars]
  | last h =>
    rw [List.flatten_singleton, chars, List.take_of_length_le (by omega),
      List.drop_eq_nil_of_le (by omega), chars]
  | cons h hparts ih =>
    rw [List.flatten_cons, List.cons_append, chars, ← h, Nat.add_sub_cancel, List.take_left,
      List.drop_left, ih]

private theorem AreChars.drop (h : AreChars e parts) (n : Nat) : AreChars e (parts.drop n) := by
  induction h generalizing n with
  | nil => simpa using AreChars.nil
  | last h =>
    cases n with
    | zero => exact .last h
    | succ n => simpa using AreChars.nil
  | cons h hparts ih =>
    cases n with
    | zero => exact .cons h hparts
    | succ n => exact ih n

private theorem AreChars.take (h : AreChars e parts) (n : Nat) : AreChars e (parts.take n) := by
  induction h generalizing n with
  | nil => simpa using AreChars.nil
  | last h =>
    cases n with
    | zero => exact .nil
    | succ n => simpa using AreChars.last h
  | cons h hparts ih =>
    cases n with
    | zero => exact .nil
    | succ n => exact .cons h (ih n)

/-- The characters of a byte string make it up. -/
theorem flatten_chars (e : Encoding) (bytes : Bytes) : (e.chars bytes).flatten = bytes := by
  fun_induction chars e bytes with
  | case1 => rfl
  | case2 b rest more ih => rw [List.flatten_cons, ih, List.cons_append, List.take_append_drop]

/-- **The characters of a slice are the slice of the characters.** -/
theorem chars_charSlice (e : Encoding) (bytes : Bytes) (start count : Nat) :
    e.chars (e.charSlice bytes start count) = ((e.chars bytes).drop start).take count :=
  ((areChars_chars e bytes).drop start |>.take count).chars_flatten

/-- A slice of one character. -/
theorem charSlice_one {n : Nat} (h : n < (e.chars bytes).length) :
    e.charSlice bytes n 1 = (e.chars bytes)[n] := by
  rw [charSlice, List.drop_eq_getElem_cons h, List.take_succ_cons, List.take_zero,
    List.flatten_singleton]

/-! ## Walking over characters -/

/-- The address behind `count` more characters, found from the width of one character after the
other. -/
def walk (e : Encoding) (bytes : Array UInt8) : (count pos : Nat) → Nat
  | 0, pos => pos
  | count + 1, pos => walk e bytes count (pos + e.charWidth bytes pos false)

/-- At the end a walk goes no further. -/
theorem walk_size (e : Encoding) (bytes : Array UInt8) (count : Nat) :
    e.walk bytes count bytes.size = bytes.size := by
  induction count with
  | zero => rfl
  | succ count ih =>
    have hwidth : e.charWidth bytes bytes.size false = 0 := by simp [charWidth]
    rw [walk, hwidth, Nat.add_zero, ih]

/-- A walk passes over as many bytes as the characters have that lie ahead. -/
theorem walk_eq (e : Encoding) (bytes : Array UInt8) (count : Nat) {pos : Nat}
    (h : pos ≤ bytes.size) : e.walk bytes count pos =
      pos + ((e.chars (bytes.toList.drop pos)).take count).flatten.length := by
  induction count generalizing pos with
  | zero => rfl
  | succ count ih =>
    rcases Nat.lt_or_eq_of_le h with hlt | rfl
    · have hpos := e.width_pos false bytes[pos]
      have hahead : bytes.toList.drop pos = bytes[pos] :: bytes.toList.drop (pos + 1) :=
        List.drop_eq_getElem_cons (show pos < bytes.toList.length from hlt)
      have hwidth : e.charWidth bytes pos false =
          min (e.width false bytes[pos]) (bytes.size - pos) := by
        rw [charWidth, Array.getElem?_eq_getElem hlt]
      have hsize : bytes.toList.length = bytes.size := Array.length_toList
      rw [walk, ih (by omega), hahead, chars, List.take_succ_cons, List.flatten_cons,
        List.length_append, List.length_cons, List.length_take, List.length_drop, List.drop_drop,
        hwidth]
      -- Behind a character that is cut off there is nothing.
      rcases Nat.le_total (e.width false bytes[pos]) (bytes.size - pos) with hle | hle
      · rw [show pos + min (e.width false bytes[pos]) (bytes.size - pos) =
          pos + 1 + (e.width false bytes[pos] - 1) by omega]
        omega
      · rw [List.drop_eq_nil_of_le (by omega), List.drop_eq_nil_of_le (by omega), chars,
          List.take_nil, List.flatten_nil, List.length_nil]
        omega
    · have hnil : bytes.toList.drop bytes.size = [] := List.drop_eq_nil_of_le (by simp)
      rw [walk_size, hnil, chars, List.take_nil]
      rfl

/-- The bytes in front of where a walk ends are those of the characters passed. -/
theorem length_take_chars (e : Encoding) (bytes : Bytes) (count : Nat) :
    ((e.chars bytes).take count).flatten.length = e.walk bytes.toArray count 0 := by
  rw [walk_eq e bytes.toArray count (Nat.zero_le _), Nat.zero_add, List.drop_zero]

/-- **A slice lies between the address behind the characters in front of it and the one behind its
own characters.** -/
theorem charSlice_eq_extract (e : Encoding) (bytes : Bytes) (start count : Nat) :
    e.charSlice bytes start count = (bytes.toArray.extract (e.walk bytes.toArray start 0)
      (e.walk bytes.toArray (start + count) 0)).toList := by
  have hsplit : bytes = ((e.chars bytes).take start).flatten ++ (e.charSlice bytes start count ++
      ((e.chars bytes).drop (start + count)).flatten) := by
    rw [charSlice, ← List.flatten_append, ← List.drop_drop, List.take_append_drop,
      ← List.flatten_append, List.take_append_drop, flatten_chars]
  have hbehind := (congrArg (List.drop ((e.chars bytes).take start).flatten.length) hsplit).trans
    List.drop_left
  have hfront := e.length_take_chars bytes start
  have hboth := e.length_take_chars bytes (start + count)
  rw [List.take_add, List.flatten_append, List.length_append] at hboth
  rw [Array.toList_extract, List.extract_eq_take_drop, ← hfront, ← hboth, Nat.add_sub_cancel_left,
    hbehind]
  exact List.take_left.symm

/-- A walk comes to the end after as many characters as there are. -/
theorem walk_eq_length_iff (e : Encoding) (bytes : Bytes) (count : Nat) :
    e.walk bytes.toArray count 0 = bytes.length ↔ e.charCount bytes ≤ count := by
  have hfront := e.length_take_chars bytes count
  have hlength := congrArg List.length (e.flatten_chars bytes)
  rw [← List.take_append_drop count (e.chars bytes), List.flatten_append, List.length_append]
    at hlength
  constructor
  · intro hend
    have hnil : ((e.chars bytes).drop count).flatten = [] :=
      List.length_eq_zero_iff.mp (by omega)
    have hdrop := ((areChars_chars e bytes).drop count).chars_flatten
    rw [hnil, chars] at hdrop
    exact List.drop_eq_nil_iff.mp hdrop.symm
  · intro hcount
    rw [← hfront, List.take_of_length_le hcount, flatten_chars]

/-! ## Laws of slices -/

/-- **Cutting out characters is exact.** In both encodings and for every byte string, malformed or
cut off as it may be: a slice is what lies between two addresses that a walk over the characters
comes to, and the number of characters is the number of steps to the end. A slice has the characters
asked for as far as there are any; two slices in a row make up one, and all characters make up the
string; a slice of a slice is a slice; and the click markers that a string gives are its slices of
one character, in order. -/
theorem slices_exact (e : Encoding) (bytes : Bytes) (a b c d : Nat) :
    (e.charSlice bytes a b = (bytes.toArray.extract (e.walk bytes.toArray a 0)
        (e.walk bytes.toArray (a + b) 0)).toList ∧
      (e.walk bytes.toArray a 0 = bytes.length ↔ e.charCount bytes ≤ a)) ∧
    e.charCount (e.charSlice bytes a b) = min b (e.charCount bytes - a) ∧
    e.charSlice bytes 0 a ++ e.charSlice bytes a b = e.charSlice bytes 0 (a + b) ∧
    e.charSlice bytes 0 (e.charCount bytes) = bytes ∧
    e.charSlice (e.charSlice bytes a b) c d = e.charSlice bytes (a + c) (min d (b - c)) ∧
    ∀ style : TextStyle,
      (style.setClickMarkers bytes e).clickMarkers =
          (List.range (e.charCount bytes)).map (fun n => e.charSlice bytes n 1) ∧
        (style.setClickMarkers bytes e).clickMarkers.flatten = bytes := by
  refine ⟨⟨e.charSlice_eq_extract bytes a b, e.walk_eq_length_iff bytes a⟩, ?_, ?_, ?_, ?_, ?_⟩
  · rw [charCount, chars_charSlice, List.length_take, List.length_drop, charCount]
  · simp only [charSlice, List.drop_zero]
    rw [← List.flatten_append, ← List.take_add]
  · rw [charSlice, List.drop_zero, charCount, List.take_length, flatten_chars]
  · rw [charSlice, chars_charSlice, List.drop_take, List.drop_drop, List.take_take, charSlice]
  · refine fun style => ⟨?_, e.flatten_chars bytes⟩
    show e.chars bytes = _
    refine List.ext_getElem (by simp [charCount]) fun n hn _ => ?_
    rw [List.getElem_map, List.getElem_range, charSlice_one hn]

end NovelScript.Encoding
