import NovelScript.Console
import NovelScript.Machine.Step

/-!
# Playback

Driving a machine for a bounded number of steps, with a fixed way to deal with the commands of the
host, and a record of everything that happened.
-/

namespace NovelScript.Playback

/-- What is done about a command of the host. -/
inductive Policy where
  /-- Its operands are passed over. -/
  | skip
  /-- Nothing; the next step finishes it. -/
  | leave
  /-- Its operands are read, one after another. -/
  | read
  deriving DecidableEq, Repr

/-- Something that happened. -/
inductive Entry where
  /-- An event other than the execution of a statement and the end. -/
  | event (event : Event)
  /-- An operand of a command of the host. -/
  | operand (value : Value)
  /-- An operand that cannot be read. -/
  | fault (fault : Fault)
  deriving DecidableEq, Repr

/-- Why a playback ends. -/
inductive Ending where
  /-- The script has ended. -/
  | ended
  /-- All steps were taken. -/
  | exhausted
  /-- The script has failed. -/
  | failed (failure : Failure)
  deriving DecidableEq, Repr

/-- A record of a playback. -/
structure Record where
  /-- The machine as it is now. -/
  machine : Machine
  /-- Number of steps. -/
  steps : Nat := 0
  /-- The address after each step. -/
  addresses : Array Nat := #[]
  /-- What happened, with the number of the step. -/
  entries : Array (Nat × Entry) := #[]
  /-- What a terminal does with the text. -/
  acts : List Console.Act := []

namespace Record

/-- Adds an entry for the current step. -/
def note (record : Record) (entry : Entry) : Record :=
  { record with entries := record.entries.push (record.steps, entry) }

/-- Reads the next operand of the command of the host. -/
def readOperand (record : Record) : Record :=
  let reader : Machine.Run Value :=
    if record.machine.atString then Value.str <$> Machine.readStr else Value.int <$> Machine.readInt
  match reader record.machine with
  | .ok value machine => { record with machine }.note (.operand value)
  | .error fault machine => { record with machine }.note (.fault fault)

/-- Reads operands of the command of the host, at most `count` of them, until there is none left
or one cannot be read. -/
def readOperands : (count : Nat) → Record → Record
  | 0, record => record
  | count + 1, record =>
    if record.machine.hasMore then
      let after := record.readOperand
      if after.machine.pc = record.machine.pc then after else readOperands count after
    else record

/-- Deals with the pending command of the host. -/
def serveHost (policy : Policy) (record : Record) : Record × Option Failure :=
  let finish (outcome : Outcome) (record : Record) : Record × Option Failure :=
    match Machine.finishCommand outcome record.machine with
    | .ok _ machine => ({ record with machine }, none)
    | .error failure machine => ({ record with machine }, some failure)
  match policy with
  | .leave => (record, none)
  | .skip => finish .stay { record with machine := record.machine.skipOperands }
  | .read => finish .advance (record.readOperands (record.machine.script.size + 1))

end Record

/-- Takes at most `steps` further steps. -/
def play (policy : Policy) (console : Console) : (steps : Nat) → Record → Ending × Record
  | 0, record => (.exhausted, record)
  | steps + 1, record =>
    match Machine.step record.machine with
    | .error failure machine =>
      (.failed failure,
        { record with machine, steps := record.steps + 1
                      addresses := record.addresses.push machine.pc })
    | .ok event machine =>
      let record :=
        { record with machine, steps := record.steps + 1
                      addresses := record.addresses.push machine.pc }
      match event with
      | .ended => (.ended, record)
      | .continued => play policy console steps record
      | .restarted => play policy console steps (record.note (.event event))
      | .text run =>
        let acts := console.showRun machine.script.encoding machine.skipRead run machine.table
        play policy console steps
          { record.note (.event event) with acts := record.acts ++ acts }
      | .hostCommand _ =>
        match (record.note (.event event)).serveHost policy with
        | (record, none) => play policy console steps record
        | (record, some failure) => (.failed failure, record)

end NovelScript.Playback
