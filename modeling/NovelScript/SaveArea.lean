import NovelScript.Fault
import NovelScript.Folder

/-!
# Where saves go

A script may have a folder for saves. What the system does with the files that are written there is
not known in advance: the disk may be full, the folder may be protected, something else may stand
where the file should be. A file is written as a whole or not at all.
-/

namespace NovelScript

/-- A folder that files are written into. -/
structure SaveFolder extends Folder where
  /-- What becomes of the coming attempts to write the file with a name, in their order: none if the
  file is written, or else why the system refuses it. -/
  refusals : (name : String) → (attempt : Nat) → Option WriteFailure := fun _ _ => none

namespace SaveFolder

/-- A folder in which every file can be written. -/
instance : Coe Folder SaveFolder where
  coe files := { toFolder := files }

/-- The files of a folder for saves. -/
instance : CoeOut SaveFolder Folder where
  coe := toFolder

/-- The folder after an attempt to write a file. -/
def attempt (folder : SaveFolder) (name : String) (bytes : Bytes) : SaveFolder where
  toFolder := match folder.refusals name 0 with
    | none => folder.toFolder.write name bytes
    | some _ => folder.toFolder
  refusals other n := folder.refusals other (if other = name then n + 1 else n)

end SaveFolder

/-- Where saves go. -/
inductive SaveArea where
  /-- Nowhere: there is no folder for saves. -/
  | absent
  /-- To a folder that does not exist. -/
  | missing
  /-- To a folder. -/
  | folder (folder : SaveFolder)

namespace SaveArea

/-- The refusal of a folder that does not exist. -/
def noSuchFolder : WriteFailure :=
  .temporary "No such file or directory (os error 2)"

/-- A file of the folder, if there are both. -/
def read? : SaveArea → String → Option Bytes
  | folder files, name => files.read? name
  | absent, _ | missing, _ => none

/-- What becomes of the coming attempts to write a file. Without a folder nothing is to be
written, and nothing is refused. -/
def refusals : SaveArea → String → Nat → Option WriteFailure
  | absent, _, _ => none
  | missing, _, _ => some noSuchFolder
  | folder files, name, n => files.refusals name n

/-- The state after an attempt to write a file. -/
def attempt (name : String) (bytes : Bytes) : SaveArea → SaveArea
  | folder files => folder (files.attempt name bytes)
  | absent => absent
  | missing => missing

end SaveArea

end NovelScript
