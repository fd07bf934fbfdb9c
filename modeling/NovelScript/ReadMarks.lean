import NovelScript.Byte

/-!
# Marks on text that was read

One bit for every address of the script, the end included, says whether the statement or the run
of text there was reached before. Bit `i` is bit `i % 8` of byte `i / 8`. The marks know nothing
of the script's contents.
-/

namespace NovelScript

/-- Which addresses were reached. -/
structure ReadMarks where
  /-- The bits, eight to the byte. -/
  bytes : Array UInt8
  /-- Number of addresses that have a bit. -/
  count : Nat
  deriving DecidableEq, Repr

namespace ReadMarks

/-- Number of bytes that hold `count` bits. -/
def byteCount (count : Nat) : Nat :=
  (count + 7) / 8

/-- Marks for a script of `size` bytes, taken from stored bytes. Missing bytes are zero and
further ones are dropped; bits of the last byte beyond the last address stay as they were
stored. -/
def ofBytes (bytes : Bytes) (size : Nat) : ReadMarks :=
  let needed := byteCount (size + 1)
  let kept := bytes.take needed
  { bytes := (kept ++ List.replicate (needed - kept.length) 0).toArray, count := size + 1 }

/-- No marks, for a script of `size` bytes. -/
def none (size : Nat) : ReadMarks :=
  ofBytes [] size

/-- The bytes to store. -/
def toBytes (marks : ReadMarks) : Bytes :=
  marks.bytes.toList

/-- The byte with only the bit of address `addr` set. -/
def bit (addr : Nat) : UInt8 :=
  1 <<< UInt8.ofNat (addr % 8)

/-- Whether an address was reached. -/
def isMarked (marks : ReadMarks) (addr : Nat) : Bool :=
  addr < marks.count && (marks.bytes.getD (addr / 8) 0 &&& bit addr) != 0

/-- Marks an address; one that has no bit is ignored. -/
def mark (marks : ReadMarks) (addr : Nat) : ReadMarks :=
  if addr < marks.count then
    { marks with bytes := marks.bytes.modify (addr / 8) (· ||| bit addr) }
  else marks

/-- Number of addresses that were reached. -/
def markedCount (marks : ReadMarks) : Nat :=
  (List.range marks.count).countP marks.isMarked

end ReadMarks

end NovelScript
