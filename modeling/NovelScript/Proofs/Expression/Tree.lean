import NovelScript.Operand

/-!
# Integer expressions as trees

The grammar of integer expressions in two tiers, with the value of a tree under the ordinary rules
and the byte strings that a tree can be written as. Sums and products nest to the left, so the
shape of a tree is the grouping of its operations.

Nothing here mentions the reader of expressions: the value of a tree is computed from the values
of its parts, and `none` means that some part has no value.
-/

namespace NovelScript

/-! ## Operators -/

/-- The integer that an operator gives before it is cut to 32 bits; there is none for a division
or remainder by zero. -/
def Operator.unbounded? (op : Operator) (lhs rhs : Int) : Option Int :=
  match op with
  | add => some (lhs + rhs)
  | sub => some (lhs - rhs)
  | mul => some (lhs * rhs)
  | div => if rhs = 0 then none else some (lhs.tdiv rhs)
  | mod => if rhs = 0 then none else some (lhs.tmod rhs)

/-- The value of an operator in 32-bit arithmetic that wraps around. -/
def Operator.value? (op : Operator) (lhs rhs : Int32) : Option Int32 :=
  (op.unbounded? lhs.toInt rhs.toInt).map Int32.ofInt

/-- The ways to write an operator. -/
def Operator.Written (op : Operator) (symbol : Bytes) : Prop :=
  match op with
  | add => symbol = [Byte.plus]
  | sub => symbol = [Byte.minus]
  | mul => symbol = [Byte.asterisk]
  | div => symbol = [Byte.slash]
  | mod => symbol.map Byte.lower = [0x6d, 0x6f, 0x64]

namespace Expression

/-- The operators of sums. -/
abbrev LooseOperator := { op : Operator // op.isTight = false }

/-- The operators of products. -/
abbrev TightOperator := { op : Operator // op.isTight = true }

/-! ## Trees -/

/-- A number by itself. -/
inductive Constant where
  /-- A literal for a natural number. -/
  | literal (n : Nat)
  /-- A numeric alias, by its name in lower case. -/
  | named (name : String)
  deriving DecidableEq, Repr

mutual

/-- An expression, whose first term may have a minus sign. -/
inductive Tree where
  /-- A sum with or without a sign in front. -/
  | signed (negative : Bool) (body : Sum)

/-- The tier of sums and differences. -/
inductive Sum where
  /-- A single product. -/
  | single (product : Product)
  /-- A further product, added or subtracted. -/
  | join (lhs : Sum) (op : LooseOperator) (rhs : Product)

/-- The tier of products, quotients and remainders. -/
inductive Product where
  /-- A single factor. -/
  | single (factor : Factor)
  /-- A further factor. -/
  | join (lhs : Product) (op : TightOperator) (rhs : Factor)

/-- A term of a product. -/
inductive Factor where
  /-- A literal or an alias. -/
  | constant (number : Constant)
  /-- The value of a variable. -/
  | read (target : Target)
  /-- An expression in parentheses. -/
  | group (inner : Tree)

/-- An integer variable or an element of an array. -/
inductive Target where
  /-- The variable with a number. -/
  | slot (number : Index)
  /-- The element of the array with a number. -/
  | element (number : Index) (subscripts : Subscripts)

/-- The number after a sigil. -/
inductive Index where
  /-- A literal or an alias. -/
  | constant (number : Constant)
  /-- The value of another variable. -/
  | read (target : Target)

/-- The indices of an array element, of which there is at least one. -/
inductive Subscripts where
  /-- The last index. -/
  | last (index : Tree)
  /-- An index in front of others. -/
  | more (index : Tree) (rest : Subscripts)

end

/-! ## Values -/

/-- The value of a constant. -/
def Constant.value? (aliases : Aliases) : Constant → Option Int32
  | literal n => some (Int32.ofNat n)
  | named name => aliases.number? name

section Values

variable (store : Store) (aliases : Aliases)

mutual

/-- The value of an expression. -/
def Tree.value? : Tree → Option Int32
  | .signed negative body => body.value? negative

/-- The value of a sum; `negative` says whether its first term has a minus sign. -/
def Sum.value? (negative : Bool) : Sum → Option Int32
  | .single product => product.value? negative
  | .join lhs op rhs => do
    let a ← lhs.value? negative
    let b ← rhs.value? false
    op.val.value? a b

/-- The value of a product; `negative` says whether its first factor has a minus sign. -/
def Product.value? (negative : Bool) : Product → Option Int32
  | .single factor => do
    let value ← factor.value?
    return if negative then -value else value
  | .join lhs op rhs => do
    let a ← lhs.value? negative
    let b ← rhs.value?
    op.val.value? a b

/-- The value of a factor. -/
def Factor.value? : Factor → Option Int32
  | .constant number => number.value? aliases
  | .read target => do
    let reference ← target.reference?
    (store.readInt reference).toOption
  | .group inner => inner.value?

/-- The variable that a target means, with all its numbers computed. -/
def Target.reference? : Target → Option VariableRef
  | .slot number => do
    let n ← number.value?
    let slot ← (Store.index n).toOption
    return .int slot
  | .element number subscripts => do
    let no ← number.value?
    let indices ← subscripts.values?
    return .array no indices

/-- The value of the number after a sigil. -/
def Index.value? : Index → Option Int32
  | .constant number => number.value? aliases
  | .read target => do
    let reference ← target.reference?
    (store.readInt reference).toOption

/-- The values of indices, in order. -/
def Subscripts.values? : Subscripts → Option (List Int32)
  | .last index => do
    let value ← index.value?
    return [value]
  | .more index rest => do
    let value ← index.value?
    let values ← rest.values?
    return value :: values

end

end Values

/-! ## Written forms -/

/-- Any number of blanks. -/
def Blank (gap : Bytes) : Prop :=
  ∀ b ∈ gap, Byte.isBlank b = true

/-- The number with the given digits in a positional system. -/
def positional (base : Nat) (digits : List Nat) : Nat :=
  digits.foldl (fun n d => n * base + d) 0

/-- The ways to write a natural number: decimal digits, or `0x` and hexadecimal digits. Zeros in
front change nothing. -/
inductive Numeral (n : Nat) : Bytes → Prop where
  /-- Decimal digits. -/
  | decimal {text : Bytes} {digits : List Nat} (nonempty : text ≠ [])
      (read : text.mapM Byte.digit? = some digits) (value : positional 10 digits = n) :
      Numeral n text
  /-- Hexadecimal digits of either case. -/
  | hexadecimal {x : UInt8} {text : Bytes} {digits : List Nat} (mark : x = 0x78 ∨ x = 0x58)
      (read : text.mapM Byte.hexDigit? = some digits) (value : positional 16 digits = n) :
      Numeral n (Byte.zero :: x :: text)

/-- The ways to write a constant. An alias must be defined. -/
def Constant.Written (aliases : Aliases) : Constant → Bytes → Prop
  | literal n, text => Numeral n text
  | named name, text =>
    (∃ first rest, text = first :: rest ∧ Byte.isNameStart first = true ∧
      ∀ b ∈ rest, Byte.isNameByte b = true) ∧
      text.toName = name ∧ (aliases.number? name).isSome = true

/-- Whether the constant is a name. -/
def Constant.isName : Constant → Bool
  | literal _ => false
  | named _ => true

mutual

/-- Whether the text of a target ends in a name. -/
def Target.endsInName : Target → Bool
  | .slot number => number.endsInName
  | .element _ _ => false

/-- Whether the text of the number after a sigil ends in a name. -/
def Index.endsInName : Index → Bool
  | .constant number => number.isName
  | .read target => target.endsInName

end

mutual

/-- Whether the text of a target ends in an array element. -/
def Target.endsInElement : Target → Bool
  | .slot number => number.endsInElement
  | .element _ _ => true

/-- Whether the text of the number after a sigil ends in an array element. -/
def Index.endsInElement : Index → Bool
  | .constant _ => false
  | .read target => target.endsInElement

end

namespace Factor

/-- Whether the text of a factor is a name. -/
def isName : Factor → Bool
  | constant number => number.isName
  | _ => false

/-- Whether the text of a factor ends in a name. -/
def endsInName : Factor → Bool
  | constant number => number.isName
  | read target => target.endsInName
  | group _ => false

/-- Whether the text of a factor ends in an array element. -/
def endsInElement : Factor → Bool
  | read target => target.endsInElement
  | _ => false

end Factor

/-- The first factor of a product. -/
def Product.first : Product → Factor
  | .single factor => factor
  | .join lhs _ _ => lhs.first

/-- The last factor of a product. -/
def Product.last : Product → Factor
  | .single factor => factor
  | .join _ _ rhs => rhs

/-- The last factor of a sum. -/
def Sum.last : Sum → Factor
  | .single product => product.last
  | .join _ _ rhs => rhs.last

/-- The ways to write an operator between two factors, with blanks around it. The remainder
operator is a word, so a blank keeps it apart from a name before or after it. -/
inductive Joint (before : Factor) (op : Operator) (after : Factor) : Bytes → Prop where
  /-- Blanks, the operator, and blanks. -/
  | mk {gap symbol gap' : Bytes} (blank : Blank gap) (symbol_written : op.Written symbol)
      (blank' : Blank gap')
      (apart : op = .mod → before.endsInName = true → gap ≠ [])
      (apart' : op = .mod → after.isName = true → gap' ≠ []) :
      Joint before op after (gap ++ symbol ++ gap')

section Written

variable (aliases : Aliases)

mutual

/-- The ways to write an expression. -/
def Tree.Written : Tree → Bytes → Prop
  | .signed negative body, text =>
    ∃ sign gap inner, text = sign ++ gap ++ inner ∧
      (if negative then sign = [Byte.minus] ∧ Blank gap else sign = [] ∧ gap = []) ∧
      body.Written inner

/-- The ways to write a sum. -/
def Sum.Written : Sum → Bytes → Prop
  | .single product, text => product.Written text
  | .join lhs op rhs, text =>
    ∃ left joint right, text = left ++ joint ++ right ∧
      lhs.Written left ∧ Joint lhs.last op rhs.first joint ∧ rhs.Written right

/-- The ways to write a product. -/
def Product.Written : Product → Bytes → Prop
  | .single factor, text => factor.Written text
  | .join lhs op rhs, text =>
    ∃ left joint right, text = left ++ joint ++ right ∧
      lhs.Written left ∧ Joint lhs.last op rhs joint ∧ rhs.Written right

/-- The ways to write a factor. -/
def Factor.Written : Factor → Bytes → Prop
  | .constant number, text => number.Written aliases text
  | .read target, text => target.Written text
  | .group inner, text =>
    ∃ gap body gap', text = Byte.leftParen :: gap ++ body ++ gap' ++ [Byte.rightParen] ∧
      Blank gap ∧ inner.Written body ∧ Blank gap'

/-- The ways to write a target. No blank stands between a sigil and its number, and the number of
an array does not end in an array element, which would take the indices for its own. -/
def Target.Written : Target → Bytes → Prop
  | .slot number, text =>
    ∃ digits, text = Byte.percent :: digits ∧ number.Written digits
  | .element number subscripts, text =>
    ∃ digits gap indices, text = Byte.question :: digits ++ gap ++ indices ∧
      number.endsInElement = false ∧ number.Written digits ∧ Blank gap ∧
      subscripts.Written indices

/-- The ways to write the number after a sigil. -/
def Index.Written : Index → Bytes → Prop
  | .constant number, text => number.Written aliases text
  | .read target, text => target.Written text

/-- The ways to write indices. -/
def Subscripts.Written : Subscripts → Bytes → Prop
  | .last index, text =>
    ∃ gap body gap', text = Byte.leftBracket :: gap ++ body ++ gap' ++ [Byte.rightBracket] ∧
      Blank gap ∧ index.Written body ∧ Blank gap'
  | .more index rest, text =>
    ∃ gap body gap' gap'' further,
      text = Byte.leftBracket :: gap ++ body ++ gap' ++ [Byte.rightBracket] ++ gap'' ++ further ∧
      Blank gap ∧ index.Written body ∧ Blank gap' ∧ Blank gap'' ∧ rest.Written further

end

end Written

/-- What an expression can be followed by: the end of the text, a newline, or a comma, colon or
closing bracket of any kind. -/
def Closes (rest : Bytes) : Prop :=
  ∀ b ∈ rest.head?, b ∈ [Byte.newline, Byte.comma, Byte.colon, Byte.rightParen, Byte.rightBracket,
    Byte.rightBrace]

end Expression

end NovelScript
