import NovelScript.Decimal
import NovelScript.Fault

/-!
# Logs of names

A log of the labels passed, or of the files used. Recording is off until the script asks for it.
A stored log is the number of names on a line, and then each name in double quotes with every
byte masked.
-/

namespace NovelScript

/-- Names in the order in which they were first recorded. -/
structure NameLog where
  /-- Whether names are recorded. -/
  enabled : Bool := false
  /-- The names, in lower case, each once. -/
  names : List String := []
  deriving DecidableEq, Repr

namespace NameLog

/-- What every byte of a stored name is combined with. -/
def mask : UInt8 := 0x84

/-- Adds a name, unless it is there. -/
def insert (log : NameLog) (name : String) : NameLog :=
  if name.toLower ∈ log.names then log
  else { log with names := log.names ++ [name.toLower] }

/-- Adds a name, if recording is on. -/
def record (log : NameLog) (name : String) : NameLog :=
  if log.enabled then log.insert name else log

/-- Whether a name was recorded, in any case. -/
def contains (log : NameLog) (name : String) : Bool :=
  name.toLower ∈ log.names

/-- A stored name, in its quotes. -/
def entryBytes (name : String) : Bytes :=
  Byte.quote :: (Bytes.ofText name).map (· ^^^ mask) ++ [Byte.quote]

/-- The bytes to store. -/
def toBytes (log : NameLog) : Bytes :=
  (Decimal.digits log.names.length).map Decimal.digitByte ++ Byte.newline ::
    log.names.flatMap entryBytes

/-- Adds `count` stored names, of which the first has number `entry`. Names before a malformed
entry are kept. -/
def mergeEntries : (count entry : Nat) → Bytes → NameLog → Except Fault Unit × NameLog
  | 0, _, _, log => (.ok (), log)
  | count + 1, entry, bytes, log =>
    match bytes with
    | [] => (.error (.logEntryUnquoted entry), log)
    | b :: rest =>
      if b != Byte.quote then (.error (.logEntryUnquoted entry), log)
      else
        let masked := rest.takeWhile (· != Byte.quote)
        match rest.dropWhile (· != Byte.quote) with
        | [] => (.error (.logEntryOpen entry), log)
        | _ :: further =>
          let name := String.ofList (Text.Utf8.decode (masked.map (· ^^^ mask)))
          mergeEntries count (entry + 1) further (log.insert name)

/-- Adds the names of a stored log. The switch for recording stays as it is. -/
def merge (log : NameLog) (bytes : Bytes) : Except Fault Unit × NameLog :=
  match bytes.dropWhile (· != Byte.newline) with
  | [] => (.error .logWithoutCount, log)
  | _ :: entries =>
    let line := bytes.takeWhile (· != Byte.newline)
    match Decimal.size? (Text.trim (Text.Utf8.decode line)) with
    | none => (.error .logCountMalformed, log)
    | some count => mergeEntries count 0 entries log

end NameLog

end NovelScript
