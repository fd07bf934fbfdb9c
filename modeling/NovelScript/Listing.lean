import NovelScript.Statement
import NovelScript.TextRun

/-!
# Listings

Reading a script from an address on without executing it: statement after statement, with every
line of text read run by run. Only the assignments inside text have an effect.
-/

namespace NovelScript.Listing

/-- Something found while reading. -/
inductive Item where
  /-- A statement. -/
  | statement (statement : Statement)
  /-- A run of text, and where reading goes on after it. -/
  | run (delivery : TextReader.Delivery)
  /-- Text that cannot be read. -/
  | fault (fault : Fault)
  deriving DecidableEq, Repr

/-- What is read with, and how far reading has come. -/
structure Progress where
  /-- Everything found so far. -/
  items : Array Item := #[]
  /-- The variables. -/
  store : Store
  /-- Whether narrow mode is on. -/
  narrow : Bool
  /-- Where reading goes on, unless it has ended. -/
  next : Option Nat

/-- Adds an item. -/
def Progress.push (p : Progress) (item : Item) : Progress :=
  { p with items := p.items.push item }

/-- Reads at most `runs` runs of a line of text that goes on at `addr`. -/
def readLine (setup : TextReader.Setup) : (runs addr : Nat) → Progress → Progress
  | 0, addr, p => { p with next := some addr }
  | runs + 1, addr, p =>
    match TextReader.read setup p.store addr p.narrow with
    | (.error fault, store) => { p.push (.fault fault) with store, next := none }
    | (.ok delivery, store) =>
      let p := { p.push (.run delivery) with store, narrow := delivery.narrow }
      if delivery.run.stop = .endOfLine then { p with next := some delivery.next }
      else readLine setup runs delivery.next p

/-- Reads the statement at `addr`; a command is passed over with its operands. -/
def readStatement (setup : TextReader.Setup) (tags : Bool) (addr : Nat) (p : Progress) :
    Progress :=
  let script := setup.script
  let statement := script.statementAt addr tags
  let p := p.push (.statement statement)
  match statement.kind with
  | .endOfScript => { p with next := none }
  | .command _ => { p with next := some (script.skipStatement false statement.next) }
  | .text => readLine setup (script.size - statement.next + 1) statement.next p
  | _ => { p with next := some statement.next }

/-- Reads at most `statements` statements. -/
def read (setup : TextReader.Setup) (tags : Bool) : (statements : Nat) → Progress → Progress
  | 0, p => p
  | statements + 1, p =>
    match p.next with
    | none => p
    | some addr => read setup tags statements (readStatement setup tags addr p)

end NovelScript.Listing
