import NovelScript.Text.Blank

/-!
# Numerals

The numbers of a TOML document, as whole words: integers in four bases, which must fit in 64 bits
with a sign, and floating-point numbers. Single underscores may separate digits.
-/

namespace NovelScript.Toml

/-- Value of a hexadecimal digit. -/
def hexDigit? (c : Char) : Option Nat :=
  if '0' ≤ c && c ≤ '9' then some (c.toNat - 48)
  else if 'a' ≤ c && c ≤ 'f' then some (c.toNat - 87)
  else if 'A' ≤ c && c ≤ 'F' then some (c.toNat - 55)
  else none

/-- The value of digits in a base. -/
def valueOf (base : Nat) (digits : List Char) : Nat :=
  digits.foldl (fun n c => n * base + (hexDigit? c).getD 0) 0

/-- The digits of a numeral in which single underscores may separate digits. -/
def digitGroups? (isDigit : Char → Bool) (text : List Char) : Option (List Char) :=
  let groups := Text.splitAt '_' text
  if groups.all fun g => !g.isEmpty && g.all isDigit then some groups.flatten else none

/-- The digits of a decimal numeral: no zero in front of other digits. -/
def decimal? (text : List Char) : Option (List Char) := do
  let digits ← digitGroups? Char.isDigit text
  guard (digits.head? ≠ some '0' ∨ digits.length = 1)
  return digits

/-- A numeral in base 16, 8 or 2, after its mark. -/
def based? (text : List Char) : Option Nat :=
  match text with
  | '0' :: 'x' :: rest => (digitGroups? (fun c => (hexDigit? c).isSome) rest).map (valueOf 16)
  | '0' :: 'o' :: rest => (digitGroups? (fun c => '0' ≤ c && c ≤ '7') rest).map (valueOf 8)
  | '0' :: 'b' :: rest => (digitGroups? (fun c => c = '0' || c = '1') rest).map (valueOf 2)
  | _ => none

/-- Sign and rest of a numeral. -/
def splitSign : List Char → Bool × List Char
  | '-' :: rest => (true, rest)
  | '+' :: rest => (false, rest)
  | text => (false, text)

/-- Whether a numeral fits in 64 bits with a sign. -/
def fits (n : Int) : Bool :=
  Int64.minValue.toInt ≤ n && n ≤ Int64.maxValue.toInt

/-- The integer that a word stands for. -/
def integer? (word : List Char) : Option Int := do
  let n ← match based? word with
    | some n => pure (Int.ofNat n)
    | none => do
      let (negative, rest) := splitSign word
      let n := Int.ofNat (valueOf 10 (← decimal? rest))
      pure (if negative then -n else n)
  guard (fits n)
  return n

/-- A floating-point number: `mantissa * 10 ^ exponent`, with a sign. -/
structure Scientific where
  /-- Whether there is a minus sign. -/
  negative : Bool
  /-- The digits of the mantissa. -/
  mantissa : List Char
  /-- The power of ten. -/
  exponent : Int
  deriving DecidableEq, Repr

namespace Scientific

/-- The exponent that a word stands for. -/
def exponent? (word : List Char) : Option Int := do
  let (negative, rest) := splitSign word
  let n := Int.ofNat (valueOf 10 (← digitGroups? Char.isDigit rest))
  return if negative then -n else n

/-- The number that a word stands for, if it has a fraction or an exponent. -/
def ofWord? (word : List Char) : Option Scientific := do
  let (negative, body) := splitSign word
  let notExponent : Char → Bool := fun c => c ≠ 'e' && c ≠ 'E'
  let front := body.takeWhile notExponent
  let exponent := body.dropWhile notExponent
  let whole := front.takeWhile (· ≠ '.')
  let fraction := front.dropWhile (· ≠ '.')
  guard (!fraction.isEmpty || !exponent.isEmpty)
  let whole ← decimal? whole
  let places ← if fraction.isEmpty then some [] else digitGroups? Char.isDigit fraction.tail
  let power ← if exponent.isEmpty then some 0 else exponent? exponent.tail
  return {
    negative := negative
    mantissa := whole ++ places
    exponent := power - Int.ofNat places.length }

/-- The least number that double precision rounds to infinity: half a unit in the last place above
the largest finite number. -/
def infinityBound : Nat :=
  (1 <<< 1024) - (1 <<< 970)

/-- Whether the magnitude is infinite in double precision. With `d` digits the magnitude lies
between two powers of ten, which decides all but the numbers next to the bound. -/
def overflows (number : Scientific) : Bool :=
  let digits := number.mantissa.dropWhile (· = '0')
  let top := Int.ofNat digits.length + number.exponent
  if digits.isEmpty || top ≤ 308 then false
  else if 309 < top then true
  else
    valueOf 10 digits * Nat.pow 10 number.exponent.toNat ≥
      infinityBound * Nat.pow 10 (-number.exponent).toNat

end Scientific

/-- Whether a word is a floating-point number. A positive one must not be too large, except that
infinity has a name. -/
def isFloat (word : List Char) : Bool :=
  let body := String.ofList (splitSign word).2
  body = "inf" || body = "nan" ||
    match Scientific.ofWord? word with
    | some number => number.negative || !number.overflows
    | none => false

end NovelScript.Toml
