/-!
# Warnings and notices

A warning is a recoverable problem in a script: execution goes on, unless strict mode turns the
warning into a failure. A notice is one line of the engine's log.
-/

namespace NovelScript

/-- A recoverable problem. -/
inductive Warning where
  /-- A name in an integer expression is no numeric alias. -/
  | unknownAlias (name : String)
  /-- A string literal is not closed on its line. -/
  | openString
  /-- A pretext tag is not closed on its line. -/
  | openTag
  /-- A text button is not closed before the next pause. -/
  | openButton
  /-- An assignment block in text is not closed on its line. -/
  | openBlock
  /-- A statement has more operands than its command takes. -/
  | extraOperands
  /-- A handler call outside a click-wait handler. -/
  | handlerCallOutside
  /-- A loop is left, with a jump, where there is none. -/
  | breakOutside
  /-- A loop is left where there is none, so only its text is passed over. -/
  | breakSkips
  /-- A subroutine asks for more operands than it was given. -/
  | missingParams
  /-- A save slot that was never written is loaded. -/
  | missingSlot (slot : Int32)
  deriving DecidableEq, Repr

/-- The text of a warning. -/
def Warning.message : Warning → String
  | unknownAlias name => s!"unknown numeric alias '{name}', assuming 0"
  | openString => "unterminated string literal"
  | openTag => "unterminated pretext tag"
  | openButton => "text button not closed before end of run"
  | openBlock => "unterminated '\x7b' block in text"
  | extraOperands => "extra operands ignored"
  | handlerCallOutside => "rgosub outside a click-wait handler, treated as gosub"
  | breakOutside => "break without an active for loop"
  | breakSkips => "break without an active for loop, skipping to next"
  | missingParams => "getparam: caller passed fewer operands"
  | missingSlot slot => s!"loadgame: save slot {slot} does not exist"

/-- A line of the engine's log. -/
inductive Notice where
  /-- A label was defined before, so this definition does not count. -/
  | duplicateLabel (name : String) (line : Nat)
  /-- A numeric alias was defined before, so this definition does not count. -/
  | numberAliasKept (name : String)
  /-- A string alias was defined before, so this definition does not count. -/
  | stringAliasKept (name : String)
  /-- A warning, with the label and the line of the statement that gave it. -/
  | warning (cause : Warning) (label : String) (line : Nat)
  deriving DecidableEq, Repr

/-- The text of a notice. -/
def Notice.message : Notice → String
  | duplicateLabel name line => s!"Duplicate label *{name} at line {line} ignored"
  | numberAliasKept name => s!"numalias {name} redefined, keeping the first value"
  | stringAliasKept name => s!"stralias {name} redefined, keeping the first value"
  | warning cause label line => s!"{cause.message} (at *{label} line {line})"

end NovelScript
