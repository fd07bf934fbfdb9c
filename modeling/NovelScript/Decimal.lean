import NovelScript.Byte
import NovelScript.Text.Blank
import NovelScript.Text.Utf8

/-!
# Decimal numerals

Digits of natural numbers, the readers for the numerals that occur in source files and string
values, and the text of signed script integers. Script integers are 32-bit two's complement, so
reading a long numeral wraps around.
-/

namespace NovelScript.Decimal

/-- The decimal digits of `n`, most significant first, without leading zeros. -/
def digits (n : Nat) : List Nat :=
  if n < 10 then [n] else digits (n / 10) ++ [n % 10]

/-- The digits of `n` with zeros in front up to `width` digits. -/
def paddedDigits (n width : Nat) : List Nat :=
  List.replicate (width - (digits n).length) 0 ++ digits n

/-- The ASCII byte of a digit. -/
def digitByte (d : Nat) : UInt8 :=
  UInt8.ofNat (0x30 + d)

/-- One more digit on the right, in 32-bit arithmetic. -/
def shiftIn (base : Int32) (value : Int32) (d : Nat) : Int32 :=
  value * base + Int32.ofNat d

/-- The 32-bit value of decimal digits, most significant first. -/
def value (digits : List Nat) : Int32 :=
  digits.foldl (shiftIn 10) 0

/-- The 32-bit value of ASCII digits. -/
def byteValue (bytes : Bytes) : Int32 :=
  value (bytes.map fun b => (b - Byte.zero).toNat)

/-- The 32-bit value of the decimal digits at the front of a text. -/
def textValue (text : List Char) : Int32 :=
  value ((text.takeWhile Char.isDigit).map fun c => c.toNat - 48)

/-- The integer at the front of a byte string, after blanks and with an optional sign; zero if
there is none. -/
def leadingInt (bytes : Bytes) : Int32 :=
  match Text.trimStart (Text.Utf8.decode bytes) with
  | '-' :: rest => -textValue rest
  | '+' :: rest => textValue rest
  | text => textValue text

/-- A script integer as ASCII bytes, with `-` in front of a negative one. -/
def ofInt (value : Int32) : Bytes :=
  let magnitude := (digits value.toInt.natAbs).map digitByte
  if value < 0 then Byte.minus :: magnitude else magnitude

/-- An unsigned numeral that fits in 64 bits: one or more ASCII digits, possibly after a `+`. -/
def size? (text : List Char) : Option Nat :=
  let numeral := match text with
    | '+' :: rest => rest
    | other => other
  if numeral.isEmpty || !numeral.all Char.isDigit then none
  else
    let value := numeral.foldl (fun v c => v * 10 + (c.toNat - 48)) 0
    if value < UInt64.size then some value else none

end NovelScript.Decimal
