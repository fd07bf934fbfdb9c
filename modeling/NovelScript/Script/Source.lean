import NovelScript.Folder
import NovelScript.Script

/-!
# Script sources

A folder holds its script in numbered text files, or in one masked file. Line ends become single
newlines, a byte order mark is dropped, and every file ends with a newline.
-/

namespace NovelScript

/-- How a script is stored. -/
inductive SourceKind where
  /-- Numbered files in the legacy encoding. -/
  | numbered
  /-- Numbered files in UTF-8. -/
  | numberedUtf8
  /-- One file, every byte masked in the same way. -/
  | masked
  /-- One file, masked with a ring of bytes. -/
  | ring
  deriving DecidableEq, Repr

namespace SourceKind

/-- The mask of every byte. -/
def maskByte : UInt8 := 0x84

/-- The masks that follow one another round and round. -/
def maskRing : List UInt8 := [0x79, 0x57, 0x0d, 0x80, 0x04]

/-- Takes the mask off, from position `index` of the ring on. -/
def unmaskRing : (index : Nat) → Bytes → Bytes
  | _, [] => []
  | index, b :: rest =>
    (b ^^^ (maskRing[index % 5]?).getD 0) :: unmaskRing (index + 1) rest

/-- The text of a source file. -/
def unmask (kind : SourceKind) (bytes : Bytes) : Bytes :=
  match kind with
  | numbered | numberedUtf8 => bytes
  | masked => bytes.map (· ^^^ maskByte)
  | ring => unmaskRing 0 bytes

/-- The encoding of a script stored in this way. -/
def encoding : SourceKind → Encoding
  | numberedUtf8 => .utf8
  | numbered | masked | ring => .shiftJis

end SourceKind

namespace Script

/-- A text without the byte order mark in front of it. -/
def dropMark : Bytes → Bytes
  | 0xef :: 0xbb :: 0xbf :: rest => rest
  | bytes => bytes

/-- A text in which each carriage return, with the newline that may follow it, is a newline. -/
def unifyLineEnds : Bytes → Bytes
  | [] => []
  | [b] => if b = Byte.carriageReturn then [Byte.newline] else [b]
  | b :: c :: rest =>
    if b = Byte.carriageReturn then
      if c = Byte.newline then Byte.newline :: unifyLineEnds rest
      else Byte.newline :: unifyLineEnds (c :: rest)
    else b :: unifyLineEnds (c :: rest)

/-- A text with a newline at its end, unless it is empty. -/
def endLine (bytes : Bytes) : Bytes :=
  match bytes.getLast? with
  | none => bytes
  | some b => if b = Byte.newline then bytes else bytes ++ [Byte.newline]

/-- Adds a source file to the text of those before it. -/
def appendSource (text raw : Bytes) : Bytes :=
  endLine (text ++ unifyLineEnds (dropMark raw))

/-- The script with the given text. -/
def ofSource (raw : Bytes) (encoding : Encoding) : Script :=
  { bytes := (appendSource [] raw).toArray, encoding }

/-- A number with at least two digits. -/
def twoDigits (n : Nat) : String :=
  if n < 10 then s!"0{n}" else s!"{n}"

/-- The contents of numbered files with an extension, in order. The number has one digit if it
can, or else two. -/
def numberedFiles (folder : Folder) (extension : String) : List Bytes :=
  (List.range 100).filterMap fun n =>
    folder.read? s!"{n}.{extension}" <|> folder.read? s!"{twoDigits n}.{extension}"

/-- The masked files that may hold a script, in the order in which they are looked for. -/
def maskedFiles : List (String × SourceKind) :=
  [("nscript.dat", .masked), ("nscr_sec.dat", .ring), ("nscript.___", .masked)]

/-- How a folder stores its script, and the contents of the files. -/
def findSource? (folder : Folder) : Option (SourceKind × List Bytes) :=
  match numberedFiles folder "txt" with
  | file :: files => some (.numbered, file :: files)
  | [] =>
    match numberedFiles folder "utf" with
    | file :: files => some (.numberedUtf8, file :: files)
    | [] => maskedFiles.findSome? fun (name, kind) =>
        (folder.read? name).map fun bytes => (kind, [bytes])

/-- The script in a folder, in the encoding asked for or the one of its source files. The path is
for messages. -/
def ofFolder (folder : Folder) (path : String) (encoding : Option Encoding) :
    Except Fault Script :=
  match findSource? folder with
  | none => .error (.scriptNotFound path)
  | some (kind, files) =>
    let text := files.foldl (fun text raw => appendSource text (kind.unmask raw)) []
    .ok { bytes := text.toArray, encoding := encoding.getD kind.encoding }

end Script

end NovelScript
