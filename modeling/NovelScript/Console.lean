import NovelScript.TextRun

/-!
# Showing text on a terminal

What a terminal does with a run of text: it prints characters and colour escapes, waits, and
pauses until Enter is pressed. A terminal that nobody sits at never waits or pauses.
-/

namespace NovelScript

/-- A terminal. -/
structure Console where
  /-- Whether somebody can press Enter. -/
  interactive : Bool
  /-- Whether text that was read before is passed over quickly. -/
  skipSeen : Bool
  deriving DecidableEq, Repr

namespace Console

/-- Something that a terminal does. -/
inductive Act where
  /-- Prints a text. -/
  | print (text : String)
  /-- Waits for some milliseconds. -/
  | wait (ms : Nat)
  /-- Pauses until Enter is pressed. -/
  | pause
  deriving DecidableEq, Repr

/-- The line between two pages. -/
def pageRule : String := "----------------------------------------"

/-- What a terminal does with a piece of text; `skipping` says whether it passes over quickly. -/
def showPiece (console : Console) (encoding : Encoding) (table : Text.ShiftJis.Table)
    (skipping : Bool) : TextPiece → List Act
  | .chars bytes => [.print (encoding.display bytes table)]
  | .colour red green blue => [.print s!"\x1b[38;2;{red};{green};{blue}m"]
  | .buttonStart id => [.print s!"[{id}:"]
  | .buttonEnd => [.print "]"]
  | .wait ms skippable =>
    if console.interactive && !(skipping && skippable) && 0 < ms then [.wait ms.toInt.toNat]
    else []
  | .speed _ | .narrowMode _ => []

/-- Whether a piece changes the colour. -/
def isColour : TextPiece → Bool
  | .colour _ _ _ => true
  | _ => false

/-- What a terminal does at the end of a run. Enter ends the line that it is pressed on. -/
def showStop (pauses : Bool) : Pause → List Act
  | .endOfLine => [.print "\n"]
  | .clickWait | .clickWaitOrNewPage => if pauses then [.pause] else [.print "\n"]
  | .newPage => (if pauses then [.pause] else []) ++ [.print s!"\n{pageRule}\n"]

/-- What a terminal does with a run of text; `allowSkip` says whether the script lets text be
passed over quickly. -/
def showRun (console : Console) (encoding : Encoding) (allowSkip : Bool) (run : TextRun)
    (table : Text.ShiftJis.Table := .common) : List Act :=
  let skipping := console.skipSeen && allowSkip && run.seen
  let pauses := !run.handled && !skipping && console.interactive
  run.pieces.flatMap (console.showPiece encoding table skipping) ++
    (if run.pieces.any isColour then [.print "\x1b[0m"] else []) ++ showStop pauses run.stop

/-- Everything that is printed. -/
def output (acts : List Act) : String :=
  String.join <| acts.map fun
    | .print text => text
    | .wait _ | .pause => ""

/-- Number of pauses. -/
def pauseCount (acts : List Act) : Nat :=
  acts.countP (· == .pause)

end Console

end NovelScript
