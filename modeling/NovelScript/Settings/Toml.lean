import NovelScript.Settings.Toml.Document
import NovelScript.Settings.Toml.Moment

/-!
# TOML

The reader of TOML documents, line by line: comments, table headers, and keys with their values.
`parse?` gives what a document defines, or nothing if it is malformed or defines something twice.
-/

namespace NovelScript.Toml

/-- A reader of the front of a text. -/
abbrev Parser := StateT (List Char) Option

/-- Most arrays and tables between braces that may stand inside one another. -/
def maxNesting : Nat := 79

/-- Most parts that a key may have. -/
def maxParts : Nat := 79

/-! ## Characters and blanks -/

/-- The next character, without taking it. -/
def peek? : Parser (Option Char) := do
  return (← get).head?

/-- Takes the next character if it is `c`. -/
def eat (c : Char) : Parser Bool := do
  match ← get with
  | d :: rest =>
    if d = c then
      set rest
      return true
    else return false
  | [] => return false

/-- Takes the longest front of characters that satisfy `p`. -/
def takeWhile (p : Char → Bool) : Parser (List Char) := do
  let text ← get
  set (text.dropWhile p)
  return text.takeWhile p

/-- Whether a character is a space or a tab. -/
def isSpacing (c : Char) : Bool :=
  c = ' ' || c = '\t'

/-- Passes over spaces and tabs. -/
def skipBlanks : Parser Unit := do
  discard <| takeWhile isSpacing

/-- Whether a character may stand in a comment or in a literal string. -/
def isPlain (c : Char) : Bool :=
  c = '\t' || (' ' ≤ c && c ≠ '\x7f')

/-- Passes over a comment, if there is one. -/
def skipComment : Parser Unit := do
  if ← eat '#' then discard <| takeWhile isPlain

/-- A text after the line end in front of it, if there is one. -/
def afterLineEnd? : List Char → Option (List Char)
  | '\n' :: rest => some rest
  | '\r' :: '\n' :: rest => some rest
  | _ => none

/-- Passes over a line end, if there is one. -/
def eatLineEnd : Parser Bool := do
  match afterLineEnd? (← get) with
  | some rest =>
    set rest
    return true
  | none => return false

/-- Passes over blanks, comments and line ends, at most `count` of them. -/
def skipLines : (count : Nat) → Parser Unit
  | 0 => return ()
  | count + 1 => do
    skipBlanks
    skipComment
    if ← eatLineEnd then skipLines count

/-! ## Strings -/

/-- A character given by `count` hexadecimal digits. -/
def codePoint (count : Nat) : Parser Char := do
  let text ← get
  let digits := text.take count
  guard (digits.length = count)
  guard (digits.all fun c => (hexDigit? c).isSome)
  let n := valueOf 16 digits
  guard n.isValidChar
  set (text.drop count)
  return Char.ofNat n

/-- The character that an escape stands for, after its backslash. -/
def escape : Parser Char := do
  match ← get with
  | [] => failure
  | c :: rest =>
    set rest
    match c with
    | 'b' => return '\x08'
    | 't' => return '\t'
    | 'n' => return '\n'
    | 'f' => return '\x0c'
    | 'r' => return '\r'
    | '\x22' => return '\x22'
    | '\\' => return '\\'
    | 'u' => codePoint 4
    | 'U' => codePoint 8
    | _ => failure

/-- The rest of a basic string, of at most `length` characters. -/
def basicTail : (length : Nat) → Parser (List Char)
  | 0 => failure
  | length + 1 => do
    match ← get with
    | [] => failure
    | c :: rest =>
      set rest
      if c = '\x22' then return []
      else if c = '\\' then
        let first ← escape
        return first :: (← basicTail length)
      else if isPlain c then return c :: (← basicTail length)
      else failure

/-- A string between double quotes, with escapes. -/
def basicString : Parser String := do
  guard (← eat '\x22')
  return String.ofList (← basicTail ((← get).length + 1))

/-- A string between single quotes, without escapes. -/
def literalString : Parser String := do
  guard (← eat '\x27')
  let text ← takeWhile fun c => isPlain c && c ≠ '\x27'
  guard (← eat '\x27')
  return String.ofList text

/-- A text without the blanks and line ends in front of it. -/
def dropLines : List Char → List Char
  | '\r' :: '\n' :: rest => dropLines rest
  | c :: rest => if isSpacing c || c = '\n' then dropLines rest else c :: rest
  | [] => []

/-- Whether only blanks stand between here and the end of the line. -/
def endsLine (text : List Char) : Bool :=
  (afterLineEnd? (text.dropWhile isSpacing)).isSome

/-- The rest of a string between three quotes, of at most `length` characters. One or two quotes
right before the closing ones belong to the string. With escapes, a backslash at the end of a line
leaves out the line end and all blanks after it. -/
def longTail (quote : Char) (escapes : Bool) : (length : Nat) → Parser (List Char)
  | 0 => failure
  | length + 1 => do
    let text ← get
    if text.take 3 = [quote, quote, quote] then
      let more := ((text.drop 3).takeWhile (· = quote)).take 2
      set (text.drop (3 + more.length))
      return more
    else if ← eatLineEnd then return '\n' :: (← longTail quote escapes length)
    else match text with
      | [] => failure
      | c :: rest =>
        set rest
        if escapes && c = '\\' then
          if endsLine rest then
            set (dropLines rest)
            longTail quote escapes length
          else
            let first ← escape
            return first :: (← longTail quote escapes length)
        else if isPlain c then return c :: (← longTail quote escapes length)
        else failure

/-- A string between three quotes. A line end right after the opening ones does not count. -/
def longString (quote : Char) (escapes : Bool) : Parser String := do
  set ((← get).drop 3)
  discard eatLineEnd
  return String.ofList (← longTail quote escapes ((← get).length + 1))

/-- A string of any kind. -/
def string : Parser String := do
  let text ← get
  if text.take 3 = ['\x22', '\x22', '\x22'] then longString '\x22' true
  else if text.take 3 = ['\x27', '\x27', '\x27'] then longString '\x27' false
  else if text.head? = some '\x22' then basicString
  else literalString

/-! ## Keys -/

/-- Whether a character may stand in a bare key. -/
def isBareKey (c : Char) : Bool :=
  c.isAlphanum || c = '_' || c = '-'

/-- One part of a key. -/
def simpleKey : Parser String := do
  match ← peek? with
  | some '\x22' => basicString
  | some '\x27' => literalString
  | _ =>
    let name ← takeWhile isBareKey
    guard !name.isEmpty
    return String.ofList name

/-- The parts of a key after the first, at most `parts` of them. -/
def keyTail : (parts : Nat) → Parser Path
  | 0 => return []
  | parts + 1 => do
    skipBlanks
    if ← eat '.' then
      skipBlanks
      let name ← simpleKey
      return name :: (← keyTail parts)
    else return []

/-- A key: its parts, separated by dots. -/
def key : Parser Path := do
  let first ← simpleKey
  let path := first :: (← keyTail (← get).length)
  guard (path.length ≤ maxParts)
  return path

/-! ## Values -/

/-- Whether a character may stand in a value that is one word. -/
def isWordChar (c : Char) : Bool :=
  isBareKey c || c = '+' || c = '.' || c = ':'

/-- The time after a date that is separated from it by a space, if there is one. -/
def spacedClock : Parser Unit := do
  match ← get with
  | ' ' :: c :: rest =>
    if c.isDigit then
      set (c :: rest)
      guard (isClock (← takeWhile isWordChar))
  | _ => return ()

/-- A value that is one word, or a date and a time. -/
def word : Parser Item := do
  let text ← takeWhile isWordChar
  if String.ofList text = "true" then return .boolean true
  else if String.ofList text = "false" then return .boolean false
  else match integer? text with
    | some n => return .integer n
    | none =>
      if isFloat text then return .float
      else
        guard (isMoment text)
        if isDate text then spacedClock
        return .moment

/-- A value without brackets or braces. -/
def scalar : Parser Value := do
  match ← peek? with
  | some '\x22' | some '\x27' => return { item := .string (← string) }
  | _ => return { item := ← word }

/-- The number of elements up to the closing bracket of an array, of at most `count`. -/
def arrayTail (element : Parser Value) : (count : Nat) → Parser Nat
  | 0 => failure
  | count + 1 => do
    skipLines ((← get).length + 1)
    if ← eat ']' then return 0
    discard element
    skipLines ((← get).length + 1)
    if ← eat ',' then return (← arrayTail element count) + 1
    else
      guard (← eat ']')
      return 1

/-- A key and its value. -/
def pair (element : Parser Value) : Parser (Path × Value) := do
  let path ← key
  skipBlanks
  guard (← eat '=')
  skipBlanks
  let v ← element
  return (path, v)

/-- Adds the pairs up to a closing brace to `table`, at most `count` of them. -/
def tableTail (element : Parser Value) : (count : Nat) → (table : Document) → Parser Document
  | 0, _ => failure
  | count + 1, table => do
    skipBlanks
    let (path, v) ← pair element
    let table ← StateT.lift (table.addValue [] path v)
    skipBlanks
    if ← eat ',' then tableTail element count table
    else
      guard (← eat '\x7d')
      return table

/-- A value in which at most `nesting` brackets and braces are open at once. -/
def value : (nesting : Nat) → Parser Value
  | 0 => scalar
  | nesting + 1 => do
    if ← eat '[' then
      let length ← arrayTail (value nesting) ((← get).length + 1)
      return { item := .array length }
    else if ← eat '\x7b' then
      skipBlanks
      if ← eat '\x7d' then return { item := .table .inline }
      else
        let members ← tableTail (value nesting) ((← get).length + 1) {}
        return { item := .table .inline, members := members }
    else scalar

/-! ## Documents -/

/-- Adds a table header, after its first bracket. -/
def header (doc : Document) : Parser (Path × Document) := do
  let double ← eat '['
  skipBlanks
  let path ← key
  skipBlanks
  guard (← eat ']')
  if double then
    guard (← eat ']')
    return (path, ← StateT.lift (doc.addElement path))
  else return (path, ← StateT.lift (doc.addTable path))

/-- The lines of a document after `doc`, in the table with path `table`; at most `lines` lines. -/
def documentTail : (lines : Nat) → (table : Path) → Document → Parser Document
  | 0, _, _ => failure
  | lines + 1, table, doc => do
    skipBlanks
    let (table, doc) ← match ← peek? with
      | none | some '#' | some '\n' | some '\r' => pure (table, doc)
      | some '[' =>
        discard <| eat '['
        header doc
      | _ =>
        let (path, v) ← pair (value maxNesting)
        pure (table, ← StateT.lift (doc.addValue table path v))
    skipBlanks
    skipComment
    if (← get).isEmpty then return doc
    else
      guard (← eatLineEnd)
      documentTail lines table doc

/-- Reads a document; a byte order mark in front of it does not count. -/
def parse? (text : String) : Option Document :=
  let chars := match text.toList with
    | '\ufeff' :: rest => rest
    | chars => chars
  (documentTail (chars.length + 1) [] {}).run' chars

end NovelScript.Toml
