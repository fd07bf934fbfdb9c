import NovelScript.Settings.Toml.Numeral

/-!
# Dates and times

Which words of a TOML document are dates and times. No setting has such a value, but a document
may hold them.
-/

namespace NovelScript.Toml

/-- The number that exactly `count` digits stand for. -/
def digitsOf? (count : Nat) (text : List Char) : Option Nat :=
  if text.length = count && text.all Char.isDigit then some (valueOf 10 text) else none

/-- Whether two digits stand for a number from `low` to `high`. -/
def isPart (low high : Nat) (text : List Char) : Bool :=
  match digitsOf? 2 text with
  | some n => low ≤ n && n ≤ high
  | none => false

/-- Number of days of a month. -/
def daysOf (year month : Nat) : Nat :=
  let leap := year % 4 = 0 && (year % 100 ≠ 0 || year % 400 = 0)
  if month = 2 then if leap then 29 else 28
  else if month = 4 || month = 6 || month = 9 || month = 11 then 30
  else 31

/-- Whether a text is a date: year, month and day. -/
def isDate (text : List Char) : Bool :=
  match Text.splitAt '-' text with
  | [year, month, day] =>
    match digitsOf? 4 year, digitsOf? 2 month with
    | some y, some m => isPart 1 12 month && isPart 1 (daysOf y m) day
    | _, _ => false
  | _ => false

/-- Whether a text is a number of seconds, with or without a fraction. A leap second is the
sixtieth. -/
def isSeconds (text : List Char) : Bool :=
  isPart 0 60 (text.take 2) &&
    match text.drop 2 with
    | [] => true
    | '.' :: places => !places.isEmpty && places.all Char.isDigit
    | _ => false

/-- Whether a text is a time of day. -/
def isTime (text : List Char) : Bool :=
  match Text.splitAt ':' text with
  | [hour, minute, seconds] => isPart 0 23 hour && isPart 0 59 minute && isSeconds seconds
  | _ => false

/-- Whether a text is a distance from universal time; it may be absent. -/
def isOffset (text : List Char) : Bool :=
  match text with
  | [] | ['Z'] | ['z'] => true
  | sign :: rest =>
    (sign = '+' || sign = '-') &&
      match Text.splitAt ':' rest with
      | [hour, minute] => isPart 0 23 hour && isPart 0 59 minute
      | _ => false

/-- Whether a text is what may follow a date: a time of day and its distance from universal
time. -/
def isClock (text : List Char) : Bool :=
  let ofTime : Char → Bool := fun c => c.isDigit || c = ':' || c = '.'
  isTime (text.takeWhile ofTime) && isOffset (text.dropWhile ofTime)

/-- Whether a word is a date, a time of day, or both with a letter between them. -/
def isMoment (word : List Char) : Bool :=
  isDate word || isTime word ||
    (isDate (word.take 10) &&
      match word.drop 10 with
      | mark :: clock => (mark = 'T' || mark = 't') && isClock clock
      | [] => false)

end NovelScript.Toml
