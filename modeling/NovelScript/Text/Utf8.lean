import NovelScript.Byte

/-!
# Reading UTF-8 that may be malformed

Decoding for display and for names. Every maximal beginning of a character that cannot be
completed becomes one U+FFFD, and decoding goes on with the byte that did not fit.

The decoder is a transducer: `feed` takes one byte, gives the characters that are then certain,
and keeps at most one unfinished character.
-/

namespace NovelScript.Text.Utf8

/-- Stands for malformed bytes. -/
def replacement : Char := Char.ofNat 0xfffd

/-- A character of which the first bytes have been read. -/
structure Pending where
  /-- Number of bytes that are still to come. -/
  missing : Nat
  /-- Least value of the next byte. -/
  low : UInt8
  /-- Greatest value of the next byte. -/
  high : UInt8
  /-- The bits read so far. -/
  code : Nat
  deriving DecidableEq, Repr

/-- Reads the first byte of a character. The bounds on the second byte exclude overlong forms,
surrogates and code points above U+10FFFF. -/
def lead (b : UInt8) : List Char × Option Pending :=
  if b < 0x80 then ([Char.ofNat b.toNat], none)
  else if 0xc2 ≤ b && b ≤ 0xdf then ([], some ⟨1, 0x80, 0xbf, b.toNat - 0xc0⟩)
  else if 0xe0 ≤ b && b ≤ 0xef then
    let low := if b = 0xe0 then 0xa0 else 0x80
    let high := if b = 0xed then 0x9f else 0xbf
    ([], some ⟨2, low, high, b.toNat - 0xe0⟩)
  else if 0xf0 ≤ b && b ≤ 0xf4 then
    let low := if b = 0xf0 then 0x90 else 0x80
    let high := if b = 0xf4 then 0x8f else 0xbf
    ([], some ⟨3, low, high, b.toNat - 0xf0⟩)
  else ([replacement], none)

/-- Reads one byte after an unfinished character, if there is one. -/
def feed : Option Pending → UInt8 → List Char × Option Pending
  | none, b => lead b
  | some p, b =>
    if p.low ≤ b && b ≤ p.high then
      let code := p.code * 64 + (b.toNat - 0x80)
      if p.missing ≤ 1 then ([Char.ofNat code], none)
      else ([], some ⟨p.missing - 1, 0x80, 0xbf, code⟩)
    else
      let (out, next) := lead b
      (replacement :: out, next)

/-- Decodes the bytes that follow an unfinished character, if there is one. -/
def decodeAfter : Option Pending → Bytes → List Char
  | none, [] => []
  | some _, [] => [replacement]
  | p, b :: rest =>
    let (out, next) := feed p b
    out ++ decodeAfter next rest

/-- Decodes a byte string, with U+FFFD for what is malformed. -/
def decode (bytes : Bytes) : List Char :=
  decodeAfter none bytes

/-- Whether the bytes that follow an unfinished character, if there is one, complete it and are
well formed. -/
def wellFormedAfter : Option Pending → Bytes → Bool
  | none, [] => true
  | some _, [] => false
  | none, b :: rest =>
    match (lead b).2 with
    | some p => wellFormedAfter (some p) rest
    | none => b < 0x80 && wellFormedAfter none rest
  | some p, b :: rest => p.low ≤ b && b ≤ p.high && wellFormedAfter (feed (some p) b).2 rest

/-- Whether a byte string is well-formed UTF-8. -/
def wellFormed (bytes : Bytes) : Bool :=
  wellFormedAfter none bytes

end NovelScript.Text.Utf8
