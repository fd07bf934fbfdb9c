import NovelScript.Encoding
import NovelScript.Fault

/-!
# Scripts

A script is one buffer of bytes with an encoding. Addresses are byte offsets, and the end of the
buffer is an address too. Lines end with a newline byte.

The scanning functions here move an address forward. `advanceWhile` goes byte by byte and
`advanceChars` character by character; in the double-byte encoding only the latter passes over
the second byte of a character without looking at it.
-/

namespace NovelScript

/-- The text that the engine executes. -/
structure Script where
  /-- All bytes, in order. -/
  bytes : Array UInt8
  /-- How characters are written. -/
  encoding : Encoding
  deriving DecidableEq, Repr

namespace Script

/-- Number of bytes; also the last address. -/
def size (s : Script) : Nat :=
  s.bytes.size

/-- The byte at an address, unless it is the end. -/
def byte? (s : Script) (pos : Nat) : Option UInt8 :=
  s.bytes[pos]?

/-- Whether the byte at `pos` is `b`. -/
def isAt (s : Script) (pos : Nat) (b : UInt8) : Bool :=
  s.byte? pos == some b

/-- Whether there is a byte at `pos` that satisfies `p`. -/
def holdsAt (s : Script) (pos : Nat) (p : UInt8 → Bool) : Bool :=
  (s.byte? pos).any p

/-- The bytes from address `start` up to address `stop`. -/
def slice (s : Script) (start stop : Nat) : Bytes :=
  (s.bytes.extract start stop).toList

/-- Accepts an offset that is an address of the script. -/
def address (s : Script) (offset : Nat) : Except Fault Nat :=
  if offset ≤ s.size then .ok offset else .error (.addressPastEnd offset s.size)

/-- `n` bytes further, but not beyond the end. -/
def advance (s : Script) (pos n : Nat) : Nat :=
  min (pos + n) s.size

/-- Width of the character at an address. -/
def charWidth (s : Script) (narrow : Bool) (pos : Nat) : Nat :=
  s.encoding.charWidth s.bytes pos narrow

/-- A character of the script has a byte. -/
theorem charWidth_pos (s : Script) (narrow : Bool) {pos : Nat} (h : pos < s.bytes.size) :
    0 < s.charWidth narrow pos := by
  have hwidth := s.encoding.width_pos narrow s.bytes[pos]
  unfold charWidth Encoding.charWidth
  rw [Array.getElem?_eq_getElem h]
  simp only
  omega

/-- A character ends inside the script. -/
theorem add_charWidth_le_size (s : Script) (narrow : Bool) {pos : Nat} (h : pos ≤ s.size) :
    pos + s.charWidth narrow pos ≤ s.size := by
  unfold charWidth Encoding.charWidth
  unfold size at *
  split <;> omega

/-- The first address from `pos` on whose byte does not satisfy `p`. -/
def advanceWhile (s : Script) (p : UInt8 → Bool) (pos : Nat) : Nat :=
  if h : pos < s.bytes.size then
    if p s.bytes[pos] then advanceWhile s p (pos + 1) else pos
  else pos
termination_by s.bytes.size - pos

/-- Scanning bytes never moves back. -/
theorem le_advanceWhile (s : Script) (p : UInt8 → Bool) (pos : Nat) :
    pos ≤ s.advanceWhile p pos := by
  fun_induction advanceWhile s p pos with
  | case1 pos _ _ ih => omega
  | case2 => omega
  | case3 => omega

/-- Scanning bytes never leaves the script. -/
theorem advanceWhile_le_size (s : Script) (p : UInt8 → Bool) {pos : Nat} (h : pos ≤ s.size) :
    s.advanceWhile p pos ≤ s.size := by
  fun_induction advanceWhile s p pos with
  | case1 pos hpos _ ih => exact ih hpos
  | case2 => exact h
  | case3 => exact h

/-- The first address, in steps of whole characters, whose byte satisfies `stop`. -/
def advanceChars (s : Script) (narrow : Bool) (stop : UInt8 → Bool) (pos : Nat) : Nat :=
  if h : pos < s.bytes.size then
    if stop s.bytes[pos] then pos
    else advanceChars s narrow stop (pos + s.charWidth narrow pos)
  else pos
termination_by s.bytes.size - pos
decreasing_by
  have hwidth := s.charWidth_pos narrow h
  omega

/-- Scanning characters never moves back. -/
theorem le_advanceChars (s : Script) (narrow : Bool) (stop : UInt8 → Bool) (pos : Nat) :
    pos ≤ s.advanceChars narrow stop pos := by
  fun_induction advanceChars s narrow stop pos with
  | case1 => omega
  | case2 pos _ _ ih => omega
  | case3 => omega

/-- Scanning characters never leaves the script. -/
theorem advanceChars_le_size (s : Script) (narrow : Bool) (stop : UInt8 → Bool) {pos : Nat}
    (h : pos ≤ s.size) : s.advanceChars narrow stop pos ≤ s.size := by
  fun_induction advanceChars s narrow stop pos with
  | case1 => exact h
  | case2 pos _ _ ih => exact ih (s.add_charWidth_le_size narrow h)
  | case3 => exact h

/-- Passes over blanks. -/
def skipBlanks (s : Script) (pos : Nat) : Nat :=
  s.advanceWhile Byte.isBlank pos

/-- Passes over the byte `b` if it stands at `pos`. -/
def eat (s : Script) (b : UInt8) (pos : Nat) : Nat :=
  if s.isAt pos b then pos + 1 else pos

/-- Whether a statement ends at `pos`: at a newline, a separator, a comment or the end. -/
def atStatementEnd (s : Script) (pos : Nat) : Bool :=
  match s.byte? pos with
  | none => true
  | some b => b == Byte.newline || b == Byte.colon || b == Byte.semicolon

/-- Whether the bytes of `token` stand at `pos`. -/
def startsWith (s : Script) : (token : Bytes) → (pos : Nat) → Bool
  | [], _ => true
  | b :: rest, pos => s.isAt pos b && startsWith s rest (pos + 1)

/-- Whether the letters of `word` stand at `pos`, in any case. -/
def startsWithWord (s : Script) : (word : Bytes) → (pos : Nat) → Bool
  | [], _ => true
  | b :: rest, pos =>
    s.holdsAt pos (fun c => Byte.lower c == Byte.lower b) && startsWithWord s rest (pos + 1)

/-- The address after the keyword `word`, if it stands at `pos` and no name byte follows it. -/
def keyword? (s : Script) (word : String) (pos : Nat) : Option Nat :=
  let letters := Bytes.ofText word
  let after := pos + letters.length
  if s.startsWithWord letters pos && !s.holdsAt after Byte.isNameByte then some after else none

/-- The name at `pos`, in lower case, and the address after it. A name starts with a letter or an
underscore and goes on with name bytes. -/
def name? (s : Script) (pos : Nat) : Option (String × Nat) :=
  if s.holdsAt pos Byte.isNameStart then
    let after := s.advanceWhile Byte.isNameByte pos
    some ((s.slice pos after).toName, after)
  else none

/-- The newline that ends the line of `pos`, or the end, in steps of whole characters. -/
def skipToLineEnd (s : Script) (narrow : Bool) (pos : Nat) : Nat :=
  s.advanceChars narrow (· == Byte.newline) pos

/-- Passes over the rest of a statement: up to and over a separator, or up to the newline. A
separator between double quotes does not count; `quoted` says whether `pos` is between quotes. -/
def skipStatementFrom (s : Script) (narrow quoted : Bool) (pos : Nat) : Nat :=
  if h : pos < s.bytes.size then
    let b := s.bytes[pos]
    if b == Byte.newline then pos
    else if b == Byte.colon && !quoted then pos + 1
    else
      skipStatementFrom s narrow (xor quoted (b == Byte.quote)) (pos + s.charWidth narrow pos)
  else pos
termination_by s.bytes.size - pos
decreasing_by
  have hwidth := s.charWidth_pos narrow h
  omega

/-- The scan over a statement never moves back. -/
theorem le_skipStatementFrom (s : Script) (narrow quoted : Bool) (pos : Nat) :
    pos ≤ s.skipStatementFrom narrow quoted pos := by
  fun_induction skipStatementFrom s narrow quoted pos <;> omega

/-- The scan over a statement never leaves the script. -/
theorem skipStatementFrom_le_size (s : Script) (narrow quoted : Bool) {pos : Nat}
    (h : pos ≤ s.size) : s.skipStatementFrom narrow quoted pos ≤ s.size := by
  fun_induction skipStatementFrom s narrow quoted pos with
  | case1 => exact h
  | case2 quoted pos hpos => exact hpos
  | case3 quoted pos _ _ _ _ ih => exact ih (s.add_charWidth_le_size narrow h)
  | case4 => exact h

/-- Passes over the rest of the statement at `pos`. -/
def skipStatement (s : Script) (narrow : Bool) (pos : Nat) : Nat :=
  s.skipStatementFrom narrow false pos

/-- The address after the last newline before `pos`, or the start. -/
def lineStartBefore (s : Script) : (pos : Nat) → Nat
  | 0 => 0
  | pos + 1 => if s.isAt pos Byte.newline then pos + 1 else lineStartBefore s pos

/-- The first address of the line that holds `pos`. -/
def lineStart (s : Script) (pos : Nat) : Nat :=
  s.lineStartBefore (min pos s.size)

/-- The newline that ends the line of `pos`, or the end, byte by byte. -/
def lineEnd (s : Script) (pos : Nat) : Nat :=
  s.advanceWhile (· != Byte.newline) (min pos s.size)

/-- The first address of the line after the one that holds `pos`, or the end. -/
def nextLine (s : Script) (pos : Nat) : Nat :=
  let stop := s.lineEnd pos
  if stop < s.size then stop + 1 else stop

/-- `count` lines further down. The end of the script is as far as this goes. -/
def linesDown (s : Script) : (count pos : Nat) → Nat
  | 0, pos => pos
  | count + 1, pos =>
    let next := s.nextLine pos
    if next = pos then pos else linesDown s count next

/-- `count` lines further up from a line start, unless that is before the first line. -/
def linesUp? (s : Script) : (count pos : Nat) → Option Nat
  | 0, pos => some pos
  | count + 1, pos => if pos = 0 then none else linesUp? s count (s.lineStart (pos - 1))

/-- Number of newlines from address `start` up to address `stop`. -/
def newlinesBetween (s : Script) (start stop : Nat) : Nat :=
  (s.slice start stop).count Byte.newline

end Script

end NovelScript
