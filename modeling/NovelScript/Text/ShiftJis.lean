import NovelScript.Byte
import NovelScript.Text.Utf8

/-!
# The legacy double-byte encoding

Shift_JIS by the rules of the Encoding Standard: ASCII and 0x80 stand for themselves, 0xA1 to
0xDF are half-width katakana, and a lead byte takes a second byte. Which pairs are characters, and
which ones they are, is told by a table that is not fixed here.
-/

namespace NovelScript.Text.ShiftJis

/-- First byte of a double-byte character. -/
def isLead (b : UInt8) : Bool :=
  (0x81 ≤ b && b ≤ 0x9f) || (0xe0 ≤ b && b ≤ 0xfc)

/-- A table of the double-byte characters. Of its contents only the full-width digits and the
full-width minus sign are prescribed, since numbers are written with them. -/
structure Table where
  /-- The character that a lead byte and a second byte stand for, if they stand for one. -/
  char? : (lead second : UInt8) → Option Char
  /-- The lead byte and the second byte of a character, if it has them. -/
  pair? : Char → Option (UInt8 × UInt8)
  /-- The full-width digits stand in a row. -/
  char?_digit : ∀ d < 10, char? 0x82 (UInt8.ofNat (0x4f + d)) = some (Char.ofNat (0xff10 + d))
  /-- The full-width minus sign has its place. -/
  char?_minus : char? 0x81 0x7c = some '－'

/-- A run of double-byte codes that map to consecutive code points. -/
structure Run where
  /-- First double-byte code. -/
  code : Nat
  /-- Code point of the first code. -/
  point : Nat
  /-- Number of codes. -/
  count : Nat
  deriving DecidableEq, Repr

/-- Frequent double-byte characters: digits, upper-case and lower-case letters, hiragana, katakana
in two runs (0x7F is no second byte), and the punctuation of narrative text. -/
def commonRuns : List Run :=
  [⟨0x824f, 0xff10, 10⟩, ⟨0x8260, 0xff21, 26⟩, ⟨0x8281, 0xff41, 26⟩, ⟨0x829f, 0x3041, 83⟩,
   ⟨0x8340, 0x30a1, 63⟩, ⟨0x8380, 0x30e0, 23⟩, ⟨0x8140, 0x3000, 1⟩, ⟨0x8141, 0x3001, 2⟩,
   ⟨0x8148, 0xff1f, 1⟩, ⟨0x8149, 0xff01, 1⟩, ⟨0x815b, 0x30fc, 1⟩, ⟨0x8175, 0x300c, 2⟩,
   ⟨0x817c, 0xff0d, 1⟩, ⟨0x955c, 0x8868, 1⟩]

/-- The part of the standard table that holds frequent characters. -/
def Table.common : Table where
  char? lead second :=
    let code := lead.toNat * 256 + second.toNat
    (commonRuns.find? fun r => r.code ≤ code && code < r.code + r.count).map fun r =>
      Char.ofNat (r.point + (code - r.code))
  pair? c :=
    (commonRuns.find? fun r => r.point ≤ c.toNat && c.toNat < r.point + r.count).map fun r =>
      let code := r.code + (c.toNat - r.point)
      (UInt8.ofNat (code / 256), UInt8.ofNat (code % 256))
  char?_digit := by decide +kernel
  char?_minus := by decide +kernel

/-- Decodes one byte that does not follow a lead byte. -/
def single (b : UInt8) : Char :=
  if b ≤ 0x80 then Char.ofNat b.toNat
  else if 0xa1 ≤ b && b ≤ 0xdf then Char.ofNat (0xff61 + (b.toNat - 0xa1))
  else Utf8.replacement

/-- Decodes the bytes that follow a lead byte, if there is one. A pair that is no character becomes
one U+FFFD; if its second byte is ASCII, that byte is read again on its own. -/
def decodeAfter (table : Table) : Option UInt8 → Bytes → List Char
  | none, [] => []
  | some _, [] => [Utf8.replacement]
  | none, b :: rest =>
    if isLead b then decodeAfter table (some b) rest
    else single b :: decodeAfter table none rest
  | some lead, c :: rest =>
    match table.char? lead c with
    | some char => char :: decodeAfter table none rest
    | none =>
      if c < 0x80 then Utf8.replacement :: single c :: decodeAfter table none rest
      else Utf8.replacement :: decodeAfter table none rest

/-- Decodes a byte string. -/
def decode (table : Table) (bytes : Bytes) : List Char :=
  decodeAfter table none bytes

/-- The decimal character reference of a character that the encoding lacks. -/
def reference (c : Char) : Bytes :=
  Bytes.ofText s!"&#{c.toNat};"

/-- Encodes one character. The yen sign and the overline take the places of backslash and tilde, and
the minus sign of mathematics takes that of the full-width one. -/
def encodeChar (table : Table) (c : Char) : Bytes :=
  let c := if c.toNat = 0x2212 then '－' else c
  let point := c.toNat
  if point ≤ 0x80 then [UInt8.ofNat point]
  else if point = 0xa5 then [0x5c]
  else if point = 0x203e then [0x7e]
  else if 0xff61 ≤ point && point ≤ 0xff9f then [UInt8.ofNat (0xa1 + (point - 0xff61))]
  else match table.pair? c with
    | some (lead, second) => [lead, second]
    | none => reference c

/-- Encodes a text. -/
def encode (table : Table) (text : List Char) : Bytes :=
  text.flatMap (encodeChar table)

end NovelScript.Text.ShiftJis
