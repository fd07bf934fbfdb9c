import NovelScript.Byte
import NovelScript.Decimal
import NovelScript.Text.ShiftJis
import NovelScript.Text.Utf8

/-!
# Character encodings of scripts

A script is either in the legacy double-byte encoding or in UTF-8. The encoding decides how many
bytes the next character takes, and everything that steps over text asks it.
-/

namespace NovelScript

/-- The encoding of a script. -/
inductive Encoding where
  /-- Legacy double-byte encoding. -/
  | shiftJis
  /-- UTF-8. -/
  | utf8
  deriving DecidableEq, Repr

namespace Encoding

/-- Number of bytes that a character with first byte `b` takes. In narrow mode every byte of the
legacy encoding is a character of its own. A stray continuation byte counts as one character. -/
def width (e : Encoding) (narrow : Bool) (b : UInt8) : Nat :=
  match e with
  | shiftJis => if !narrow && Text.ShiftJis.isLead b then 2 else 1
  | utf8 =>
    if 0xc0 ≤ b && b ≤ 0xdf then 2
    else if 0xe0 ≤ b && b ≤ 0xef then 3
    else if 0xf0 ≤ b && b ≤ 0xf7 then 4
    else 1

/-- Every character takes at least one byte. -/
theorem width_pos (e : Encoding) (narrow : Bool) (b : UInt8) : 0 < e.width narrow b := by
  cases e <;> simp only [width] <;> (repeat' split) <;> omega

/-- Width of the character at `pos`: zero at the end, and never more than what is left. -/
def charWidth (e : Encoding) (bytes : Array UInt8) (pos : Nat) (narrow : Bool) : Nat :=
  match bytes[pos]? with
  | none => 0
  | some b => min (e.width narrow b) (bytes.size - pos)

/-- The characters of a byte string, in order. A character cut off by the end is shorter. -/
def chars (e : Encoding) : Bytes → List Bytes
  | [] => []
  | b :: rest =>
    let more := e.width false b - 1
    (b :: rest.take more) :: chars e (rest.drop more)
termination_by bytes => bytes.length
decreasing_by
  simp only [List.length_drop, List.length_cons]
  omega

/-- Number of characters of a byte string. -/
def charCount (e : Encoding) (bytes : Bytes) : Nat :=
  (e.chars bytes).length

/-- The `count` characters from character number `start` on, as far as there are any. -/
def charSlice (e : Encoding) (bytes : Bytes) (start count : Nat) : Bytes :=
  (((e.chars bytes).drop start).take count).flatten

/-- The full-width form of a digit. -/
def wideDigit (e : Encoding) (d : Nat) : Bytes :=
  match e with
  | shiftJis => [0x82, UInt8.ofNat (0x4f + d)]
  | utf8 => String.utf8EncodeChar (Char.ofNat (0xff10 + d))

/-- The full-width minus sign. -/
def wideMinus : Encoding → Bytes
  | shiftJis => [0x81, 0x7c]
  | utf8 => String.utf8EncodeChar (Char.ofNat 0xff0d)

/-- An integer as text, in ordinary or full-width digits, with zeros in front up to `pad`
digits. The sign does not count as a digit. -/
def formatNumber (e : Encoding) (value : Int32) (wide : Bool) (pad : Nat) : Bytes :=
  let digits := Decimal.paddedDigits value.toInt.natAbs pad
  let sign := if value < 0 then (if wide then e.wideMinus else [Byte.minus]) else []
  let glyph := if wide then e.wideDigit else fun d => [Decimal.digitByte d]
  sign ++ digits.flatMap glyph

/-- Decodes bytes for people to read; malformed bytes come out as U+FFFD. -/
def display (e : Encoding) (bytes : Bytes) (table : Text.ShiftJis.Table := .common) : String :=
  String.ofList <| match e with
    | shiftJis => Text.ShiftJis.decode table bytes
    | utf8 => Text.Utf8.decode bytes

/-- Encodes a text given by the host. -/
def encode (e : Encoding) (text : String) (table : Text.ShiftJis.Table := .common) : Bytes :=
  match e with
  | shiftJis => Text.ShiftJis.encode table text.toList
  | utf8 => Bytes.ofText text

end Encoding

end NovelScript
