import NovelScript.Warning

/-!
# Faults

Everything that can stop a script or refuse a file. A `Fault` is the cause, `Fault.kind` its
broad category and `Fault.message` its text. A `Failure` is a fault together with the place in
the script where it happened, if there is one.
-/

namespace NovelScript

/-- What an operand is, or was expected to be. -/
inductive OperandKind where
  /-- A number variable or an array element. -/
  | integerVariable
  /-- A string variable. -/
  | stringVariable
  /-- An element of an array. -/
  | arrayElement
  /-- A whole array. -/
  | array
  /-- An integer expression. -/
  | integerExpression
  /-- A string expression. -/
  | string
  /-- An operand that is no variable. -/
  | nonVariable
  /-- An operand that is no string. -/
  | nonString
  /-- A name that stands for nothing suitable. -/
  | word (name : String)
  deriving DecidableEq, Repr

/-- The name of an operand kind in messages. -/
def OperandKind.describe : OperandKind → String
  | integerVariable => "integer variable"
  | stringVariable => "string variable"
  | arrayElement => "array element"
  | array => "array"
  | integerExpression => "integer expression"
  | string => "string"
  | nonVariable => "non-variable operand"
  | nonString => "non-string operand"
  | word name => s!"'{name}'"

/-- Why the system refuses to write a file. The contents are put into a temporary file beside it,
which then takes its place. -/
inductive WriteFailure where
  /-- The contents cannot be put into a temporary file. -/
  | temporary (reason : String)
  /-- The temporary file cannot take the place of the file at `path`. -/
  | replacing (path reason : String)
  deriving DecidableEq, Repr

/-- The text of the refusal. -/
def WriteFailure.describe : WriteFailure → String
  | temporary reason => s!"temporary file: {reason}"
  | replacing path reason => s!"\x22{path}\x22: {reason}"

/-- Broad category of a fault. -/
inductive FaultKind where
  /-- Operands that cannot be read. -/
  | lexical
  /-- A variable or value of the wrong kind. -/
  | type
  /-- An index, address or size out of range. -/
  | bounds
  /-- Calls, loops and sections that do not match. -/
  | controlFlow
  /-- A jump to a label that does not exist. -/
  | undefinedLabel
  /-- Division or remainder by zero. -/
  | divideByZero
  /-- A file that cannot be read or written. -/
  | io
  /-- A malformed file. -/
  | format
  /-- A warning in strict mode. -/
  | warning
  deriving DecidableEq, Repr

/-- The name of a category in messages. -/
def FaultKind.describe : FaultKind → String
  | lexical => "lexical error"
  | type => "type error"
  | bounds => "bounds error"
  | controlFlow => "control flow error"
  | undefinedLabel => "undefined label"
  | divideByZero => "division by zero"
  | io => "I/O error"
  | format => "format error"
  | warning => "warning (strict mode)"

/-- Why a script stopped or a file was refused. -/
inductive Fault where
  /-- A parenthesised expression is not closed. -/
  | missingParen
  /-- An index of array `no` is not closed. -/
  | missingBracket (no : Int32)
  /-- No name follows the mark of a label. -/
  | labelNameExpected
  /-- A string that should name a label names none. -/
  | emptyLabel
  /-- No equals sign follows the target in an assignment block. -/
  | blockEqualsExpected
  /-- A command written with an underscore is not built in. -/
  | notBuiltin (name : String)
  /-- A name should stand here. -/
  | nameExpected
  /-- This token should stand here. -/
  | tokenExpected (token : String)
  /-- A loop lacks the word before its bound. -/
  | loopBoundExpected
  /-- A string in a condition is not compared with anything. -/
  | comparisonExpected
  /-- An operand of the wrong kind. -/
  | mismatch (expected found : OperandKind)
  /-- An address beyond the end of the script. -/
  | addressPastEnd (offset size : Nat)
  /-- A variable number below zero. -/
  | negativeIndex (n : Int32)
  /-- A limit whose lower bound exceeds its upper bound. -/
  | limitsReversed (n : Nat) (lower upper : Int32)
  /-- An array access with the wrong number of indices. -/
  | indexCount (no : Int32) (given axes : Nat)
  /-- An array access outside an axis. -/
  | indexOutOfRange (no : Int32) (index : Int) (axis : Nat) (size : Int32)
  /-- A declaration with no axis or with too many. -/
  | axisCount (no : Int32) (count : Nat)
  /-- A declaration with a negative axis. -/
  | negativeAxis (no size : Int32)
  /-- A second declaration of an array. -/
  | redeclared (no : Int32)
  /-- A declaration of more cells than an array may have. -/
  | gridTooLarge (no : Int32) (dims : List Int32)
  /-- An access to an array that was not declared. -/
  | undeclared (no : Int32)
  /-- More calls and loops inside each other than the cap allows. -/
  | nestingTooDeep (cap : Nat)
  /-- A return while a loop of the call is open. -/
  | returnInLoop
  /-- A return without a call. -/
  | returnWithoutCall
  /-- A loop end while a call made in the loop is open. -/
  | nextInCall
  /-- A loop end without a loop. -/
  | nextWithoutLoop
  /-- A host command is finished while none is pending. -/
  | noPendingCommand
  /-- A loop without an end. -/
  | noMatchingNext
  /-- A loop whose counter would not move. -/
  | zeroStep
  /-- No section marker follows. -/
  | noSectionAhead
  /-- No section marker was passed. -/
  | noSectionBehind
  /-- A move of `n` lines to before the first line. -/
  | skipBeforeStart (n : Int32)
  /-- Parameters are asked for outside a subroutine command. -/
  | paramsOutsideCall
  /-- No label has this name. -/
  | undefinedLabel (name : String)
  /-- Division by zero. -/
  | divisionByZero (lhs : Int32)
  /-- Remainder by zero. -/
  | remainderByZero (lhs : Int32)
  /-- There is no folder for saves. -/
  | noSaveFolder
  /-- A file cannot be read. -/
  | fileUnavailable (name : String)
  /-- A file cannot be written. -/
  | unwritten (name : String) (failure : WriteFailure)
  /-- A save ends too early. -/
  | truncated (offset wanted : Nat)
  /-- A count below zero. -/
  | negativeCount (what : String) (n : Int32)
  /-- A string without its terminating zero byte. -/
  | openSavedString
  /-- A file without the mark of a save. -/
  | notASave
  /-- A save of another version. -/
  | unsupportedVersion (version : UInt8)
  /-- A saved frame that is neither a call nor a loop. -/
  | badFrameTag (tag : UInt8)
  /-- A saved pause of an unknown kind. -/
  | badStopCode (code : UInt8)
  /-- A saved variable reference of an unknown kind. -/
  | badVariableTag (tag : UInt8)
  /-- A saved variable number below zero. -/
  | negativeSavedIndex
  /-- A saved array with a negative axis. -/
  | negativeSavedAxis (no : Int32)
  /-- A saved array with more cells than the file can hold. -/
  | savedGridTooLarge (no : Int32)
  /-- Bytes after the end of a save. -/
  | trailingBytes
  /-- A saved call of an unknown kind. -/
  | badCallKind (code : UInt8)
  /-- A saved position before its line. -/
  | negativeLineOffset (offset : Int32)
  /-- A saved position after the end of its line. -/
  | positionPastLine (label : String) (line offset : Int32)
  /-- A name log without a line for the count. -/
  | logWithoutCount
  /-- A name log whose count is no number. -/
  | logCountMalformed
  /-- A name log entry that does not start with a quote. -/
  | logEntryUnquoted (entry : Nat)
  /-- A name log entry that does not end with a quote. -/
  | logEntryOpen (entry : Nat)
  /-- A folder without a script. -/
  | scriptNotFound (folder : String)
  /-- A settings file that cannot be understood. -/
  | badSettings (reason : String)
  /-- A warning in strict mode. -/
  | warning (cause : Warning)
  deriving DecidableEq, Repr

namespace Fault

/-- The category of a fault. -/
def kind : Fault → FaultKind
  | missingParen | missingBracket _ | labelNameExpected | emptyLabel | blockEqualsExpected
  | notBuiltin _ | nameExpected | tokenExpected _ | loopBoundExpected | comparisonExpected =>
    .lexical
  | mismatch _ _ => .type
  | addressPastEnd _ _ | negativeIndex _ | limitsReversed _ _ _ | indexCount _ _ _
  | indexOutOfRange _ _ _ _ | axisCount _ _ | negativeAxis _ _ | redeclared _
  | gridTooLarge _ _ | undeclared _ => .bounds
  | nestingTooDeep _ | returnInLoop | returnWithoutCall | nextInCall | nextWithoutLoop
  | noPendingCommand | noMatchingNext | zeroStep | noSectionAhead | noSectionBehind
  | skipBeforeStart _ | paramsOutsideCall => .controlFlow
  | undefinedLabel _ => .undefinedLabel
  | divisionByZero _ | remainderByZero _ => .divideByZero
  | noSaveFolder | fileUnavailable _ | unwritten _ _ => .io
  | truncated _ _ | negativeCount _ _ | openSavedString | notASave | unsupportedVersion _
  | badFrameTag _ | badStopCode _ | badVariableTag _ | negativeSavedIndex | negativeSavedAxis _
  | savedGridTooLarge _ | trailingBytes | badCallKind _ | negativeLineOffset _
  | positionPastLine _ _ _ | logWithoutCount | logCountMalformed | logEntryUnquoted _
  | logEntryOpen _ | scriptNotFound _ | badSettings _ => .format
  | warning _ => .warning

/-- A byte as two hexadecimal digits. -/
def hexByte (b : UInt8) : String :=
  String.ofList [Nat.digitChar (b.toNat / 16), Nat.digitChar (b.toNat % 16)]

/-- Axis sizes in brackets, separated by commas. -/
def axisList (dims : List Int32) : String :=
  "[" ++ String.intercalate ", " (dims.map toString) ++ "]"

/-- The text of a fault. -/
def message : Fault → String
  | missingParen => "missing ')' in expression"
  | missingBracket no => s!"missing ']' after ?{no} index"
  | labelNameExpected => "label name expected after '*'"
  | emptyLabel => "empty label operand"
  | blockEqualsExpected => "'=' expected in '\x7b' block"
  | notBuiltin name => s!"_{name} is not a builtin command"
  | nameExpected => "name expected"
  | tokenExpected token => s!"'{token}' expected"
  | loopBoundExpected => "'to' expected in for"
  | comparisonExpected => "comparison expected after string operand"
  | mismatch expected found => s!"expected {expected.describe}, found {found.describe}"
  | addressPastEnd offset size => s!"script address {offset} past end ({size})"
  | negativeIndex n => s!"variable index {n} is negative"
  | limitsReversed n lower upper =>
    s!"intlimit %{n}: lower bound {lower} above upper bound {upper}"
  | indexCount no given axes => s!"?{no}: {given} indices given for {axes} dimensions"
  | indexOutOfRange no index axis size =>
    s!"?{no}: index {index} out of range on axis {axis} (size {size})"
  | axisCount no count => s!"?{no}: {count} dimensions (1..=20 allowed)"
  | negativeAxis no size => s!"?{no}: negative dimension {size}"
  | redeclared no => s!"?{no} is already declared"
  | gridTooLarge no dims => s!"?{no}: {axisList dims} is too large"
  | undeclared no => s!"?{no} is not declared"
  | nestingTooDeep cap => s!"nesting deeper than {cap} frames"
  | returnInLoop => "return inside an unfinished for loop"
  | returnWithoutCall => "return without gosub"
  | nextInCall => "next inside a subroutine started within the loop"
  | nextWithoutLoop => "next without for"
  | noPendingCommand => "no host command is pending"
  | noMatchingNext => "no matching next"
  | zeroStep => "for loop with step 0"
  | noSectionAhead => "jumpf without a following ~"
  | noSectionBehind => "jumpb before any ~"
  | skipBeforeStart n => s!"skip {n} before the first line"
  | paramsOutsideCall => "getparam outside a defsub command"
  | undefinedLabel name => s!"*{name}"
  | divisionByZero lhs => s!"{lhs} / 0"
  | remainderByZero lhs => s!"{lhs} mod 0"
  | noSaveFolder => "no save directory configured"
  | fileUnavailable name => s!"{name}: No such file or directory (os error 2)"
  | unwritten _ failure => failure.describe
  | truncated offset wanted => s!"unexpected end of data at byte {offset} (wanted {wanted} more)"
  | negativeCount what n => s!"negative {what} count {n}"
  | openSavedString => "unterminated string"
  | notASave => "not a save file"
  | unsupportedVersion version => s!"unsupported save version {version}"
  | badFrameTag tag => s!"bad frame tag 0x{hexByte tag}"
  | badStopCode code => s!"bad text stop code {code}"
  | badVariableTag tag => s!"bad variable tag {tag}"
  | negativeSavedIndex => "negative variable index"
  | negativeSavedAxis no => s!"?{no} has a negative dimension"
  | savedGridTooLarge no => s!"?{no} is larger than the file"
  | trailingBytes => "trailing bytes after save data"
  | badCallKind code => s!"bad call kind {code}"
  | negativeLineOffset offset => s!"negative line offset {offset}"
  | positionPastLine label line offset =>
    s!"saved position *{label} line {line} offset {offset} is past the end of the line"
  | logWithoutCount => "log file has no count line"
  | logCountMalformed => "log file count is not a number"
  | logEntryUnquoted entry => s!"log entry {entry} is not quoted"
  | logEntryOpen entry => s!"log entry {entry} is unterminated"
  | scriptNotFound folder => s!"no script found in {folder}"
  | badSettings reason => s!"config: {reason}"
  | warning cause => cause.message

end Fault

/-- A place in a script. -/
structure Location where
  /-- The last label at or before the place; empty if there is none. -/
  label : String
  /-- Line counted from that label's line, or from the start of the script. -/
  line : Nat
  /-- The command that is executed there, or the beginning of the text. -/
  statement : Option String
  deriving DecidableEq, Repr

/-- A fault and the place where it happened. -/
structure Failure where
  /-- The cause. -/
  fault : Fault
  /-- The place, if execution had come to one. -/
  location : Option Location
  deriving DecidableEq, Repr

namespace Failure

/-- A failure outside of execution. -/
def ofFault (fault : Fault) : Failure :=
  { fault, location := none }

/-- The full text of a failure: category, message and place. -/
def describe (failure : Failure) : String :=
  let head := s!"{failure.fault.kind.describe}: {failure.fault.message}"
  match failure.location with
  | none => head
  | some place =>
    let statement := match place.statement with
      | none => ""
      | some text => s!", in '{text}'"
    s!"{head} (at *{place.label} line {place.line}{statement})"

end Failure

end NovelScript
