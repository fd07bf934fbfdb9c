import NovelScript.Byte

/-!
# Folders

The files that the engine works with, as a value: names with contents. A folder has no folders
inside.
-/

namespace NovelScript

/-- Files by name. -/
structure Folder where
  /-- Each name once, with its contents. -/
  files : List (String × Bytes) := []
  deriving DecidableEq, Repr

namespace Folder

/-- The contents of a file. -/
def read? (folder : Folder) (name : String) : Option Bytes :=
  folder.files.lookup name

/-- Whether there is a file with a name. -/
def contains (folder : Folder) (name : String) : Bool :=
  (folder.read? name).isSome

/-- Puts contents in place of those of the file with a name. -/
def writeTo (name : String) (bytes : Bytes) : List (String × Bytes) → List (String × Bytes)
  | [] => [(name, bytes)]
  | (other, contents) :: files =>
    if other = name then (name, bytes) :: files
    else (other, contents) :: writeTo name bytes files

/-- Writes a file, in place of the one that had the name. -/
def write (folder : Folder) (name : String) (bytes : Bytes) : Folder :=
  { folder with files := writeTo name bytes folder.files }

end Folder

end NovelScript
