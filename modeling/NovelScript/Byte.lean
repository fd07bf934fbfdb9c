/-!
# Bytes of script text

Scripts and string values are raw bytes: the engine never converts them, whatever their
character encoding. This module names the bytes that have a meaning in the language and the
classes of bytes that its grammar speaks of. All classes are ASCII classes, because every
character with a meaning is an ASCII character in both supported encodings.
-/

namespace NovelScript

/-- A byte string: the contents of a file, of a string variable or of a piece of text. -/
abbrev Bytes := List UInt8

namespace Byte

/-- Ends a line. -/
def newline : UInt8 := 0x0a

/-- Carriage return, accepted in line ends of source files. -/
def carriageReturn : UInt8 := 0x0d

/-- Horizontal tab, a blank. -/
def tab : UInt8 := 0x09

/-- Space, a blank. -/
def space : UInt8 := 0x20

/-- Exclamation mark, opens an inline text command. -/
def exclamation : UInt8 := 0x21

/-- Double quote, delimits string literals. -/
def quote : UInt8 := 0x22

/-- Number sign, opens a colour in text. -/
def hash : UInt8 := 0x23

/-- Dollar sign, the sigil of string variables. -/
def dollar : UInt8 := 0x24

/-- Percent sign, the sigil of integer variables. -/
def percent : UInt8 := 0x25

/-- Opens a parenthesised expression. -/
def leftParen : UInt8 := 0x28

/-- Closes a parenthesised expression. -/
def rightParen : UInt8 := 0x29

/-- Asterisk: multiplication, or the mark in front of a label. -/
def asterisk : UInt8 := 0x2a

/-- Addition, or joining of strings. -/
def plus : UInt8 := 0x2b

/-- Separates operands. -/
def comma : UInt8 := 0x2c

/-- Subtraction, or a leading sign. -/
def minus : UInt8 := 0x2d

/-- Division, or the separator of tag fields. -/
def slash : UInt8 := 0x2f

/-- The digit zero. -/
def zero : UInt8 := 0x30

/-- Separates statements on one line. -/
def colon : UInt8 := 0x3a

/-- Opens a comment. -/
def semicolon : UInt8 := 0x3b

/-- Opens a text button. -/
def less : UInt8 := 0x3c

/-- Assignment or comparison. -/
def equals : UInt8 := 0x3d

/-- Closes a text button. -/
def greater : UInt8 := 0x3e

/-- Question mark, the sigil of arrays. -/
def question : UInt8 := 0x3f

/-- At sign, a click-wait in text. -/
def atSign : UInt8 := 0x40

/-- Opens an array index or a pretext tag. -/
def leftBracket : UInt8 := 0x5b

/-- Backslash, a page end in text. -/
def backslash : UInt8 := 0x5c

/-- Closes an array index or a pretext tag. -/
def rightBracket : UInt8 := 0x5d

/-- Underscore, a name byte; in text it suppresses the pause after a click marker. -/
def underscore : UInt8 := 0x5f

/-- Back quote: a second string delimiter, and the narrow-mode switch in text. -/
def backquote : UInt8 := 0x60

/-- Opens an assignment block in text. -/
def leftBrace : UInt8 := 0x7b

/-- Closes an assignment block in text. -/
def rightBrace : UInt8 := 0x7d

/-- Tilde, a section marker. -/
def tilde : UInt8 := 0x7e

/-- Space or tab. -/
def isBlank (b : UInt8) : Bool :=
  b == space || b == tab

/-- Decimal digit. -/
def isDigit (b : UInt8) : Bool :=
  0x30 ≤ b && b ≤ 0x39

/-- ASCII upper-case letter. -/
def isUpper (b : UInt8) : Bool :=
  0x41 ≤ b && b ≤ 0x5a

/-- ASCII lower-case letter. -/
def isLower (b : UInt8) : Bool :=
  0x61 ≤ b && b ≤ 0x7a

/-- ASCII letter. -/
def isAlpha (b : UInt8) : Bool :=
  isUpper b || isLower b

/-- A byte that may start a name. -/
def isNameStart (b : UInt8) : Bool :=
  isAlpha b || b == underscore

/-- A byte allowed in label, alias and command names. -/
def isNameByte (b : UInt8) : Bool :=
  isAlpha b || isDigit b || b == underscore

/-- One of the three variable sigils. -/
def isSigil (b : UInt8) : Bool :=
  b == percent || b == dollar || b == question

/-- ASCII lower case of a byte; other bytes are unchanged. -/
def lower (b : UInt8) : UInt8 :=
  if isUpper b then b + 0x20 else b

/-- Value of a decimal digit. -/
def digit? (b : UInt8) : Option Nat :=
  if isDigit b then some (b - zero).toNat else none

/-- Value of a hexadecimal digit of either case. -/
def hexDigit? (b : UInt8) : Option Nat :=
  if isDigit b then some (b - zero).toNat
  else if 0x41 ≤ b && b ≤ 0x46 then some ((b - 0x41).toNat + 10)
  else if 0x61 ≤ b && b ≤ 0x66 then some ((b - 0x61).toNat + 10)
  else none

end Byte

namespace Bytes

/-- The text whose characters are the given ASCII bytes, in lower case. Names are compared in
this form. -/
def toName (bytes : Bytes) : String :=
  String.ofList (bytes.map fun b => Char.ofNat (Byte.lower b).toNat)

/-- The lines of a text, without their newlines. No line follows the last newline. -/
def lines : Bytes → List Bytes
  | [] => []
  | b :: rest =>
    if b == Byte.newline then [] :: lines rest
    else match lines rest with
      | [] => [[b]]
      | line :: further => (b :: line) :: further

/-- The UTF-8 form of a text. -/
def ofText (text : String) : Bytes :=
  text.toList.flatMap String.utf8EncodeChar

end Bytes

end NovelScript
