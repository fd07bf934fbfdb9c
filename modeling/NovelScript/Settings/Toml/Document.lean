/-!
# Documents

What a TOML document defines: an item at each path of names. Tables are items too, also those that
are only named on the way to another item, so the paths of a document are closed under going up.
How a table came to be decides what may still be added to it.
-/

namespace NovelScript.Toml

/-- The names that lead to an item, outermost first. -/
abbrev Path := List String

/-- How a table came to be. -/
inductive TableForm where
  /-- By a header of its own. -/
  | header
  /-- As a part of the header of another table. -/
  | implied
  /-- As a part of a dotted key. -/
  | dotted
  /-- Between braces. -/
  | inline
  deriving DecidableEq, Repr

/-- What stands at a path. -/
inductive Item where
  /-- A string. -/
  | string (text : String)
  /-- An integer. -/
  | integer (n : Int)
  /-- A truth value. -/
  | boolean (b : Bool)
  /-- A floating-point number, which no setting can have. -/
  | float
  /-- A date or a time, which no setting can have. -/
  | moment
  /-- An array with this number of elements. -/
  | array (length : Nat)
  /-- A table. -/
  | table (form : TableForm)
  /-- An array of tables with headers. What stands below it is in its last table. -/
  | tableArray
  deriving DecidableEq, Repr

/-- What a document defines. -/
structure Document where
  /-- Items by their paths; a path occurs once. -/
  items : List (Path × Item) := []
  deriving DecidableEq, Repr

/-- A value: an item, and what stands below it if it is a table. -/
structure Value where
  /-- What the value is. -/
  item : Item
  /-- What stands below the value. -/
  members : Document := {}
  deriving DecidableEq, Repr

namespace Document

/-- The item at a path. -/
def get? (doc : Document) (path : Path) : Option Item :=
  doc.items.lookup path

/-- Puts an item at a path, in place of the one that was there. -/
def insert (doc : Document) (path : Path) (item : Item) : Document :=
  { items := (path, item) :: doc.items.filter fun (other, _) => other ≠ path }

/-- Leaves out what stands below a path. -/
def clearBelow (doc : Document) (path : Path) : Document :=
  { items := doc.items.filter fun (other, _) => !path.isPrefixOf other || other = path }

/-- The names directly below a path. -/
def names (doc : Document) (path : Path) : List String :=
  doc.items.filterMap fun (other, _) =>
    if other.dropLast = path then other.getLast? else none

/-- Whether there is an array or a table without members at a path. -/
def isEmptyAt (doc : Document) (path : Path) : Bool :=
  match doc.get? path with
  | some (.array length) => length = 0
  | some (.table _) => (doc.names path).isEmpty
  | _ => false

/-- Whether a table can be entered on the way to another item: by the key of a value only if it
has no header of its own, and never if it stands between braces. -/
def enters (form : TableForm) : Item → Bool
  | .table .header => form ≠ .dotted
  | .table .implied | .table .dotted | .tableArray => true
  | _ => false

/-- Goes down from `base` along names, and makes the tables of the given form that are missing. -/
def openPath (form : TableForm) (base : Path) : List String → Document → Option Document
  | [], doc => some doc
  | name :: rest, doc =>
    let path := base ++ [name]
    match doc.get? path with
    | none => openPath form path rest (doc.insert path (.table form))
    | some item => if enters form item then openPath form path rest doc else none

/-- Adds a value under a key of a table. A dotted key adds only to tables that come from dotted
keys, and nothing is defined twice. -/
def addValue (doc : Document) (table key : Path) (value : Value) : Option Document := do
  let parent := table ++ key.dropLast
  let path := table ++ key
  let doc ← openPath .dotted table key.dropLast doc
  guard (key.length = 1 ∨ doc.get? parent = some (.table .dotted))
  guard (doc.get? path = none)
  let graft (doc : Document) : Path × Item → Document := fun (below, item) =>
    doc.insert (path ++ below) item
  return value.members.items.foldl graft (doc.insert path value.item)

/-- Adds a table header. A table has one header, and none if it comes from a dotted key. -/
def addTable (doc : Document) (path : Path) : Option Document := do
  let doc ← openPath .implied [] path.dropLast doc
  match doc.get? path with
  | none | some (.table .implied) => return doc.insert path (.table .header)
  | some _ => none

/-- Adds a table to an array of tables, which may be a new one. -/
def addElement (doc : Document) (path : Path) : Option Document := do
  let doc ← openPath .implied [] path.dropLast doc
  match doc.get? path with
  | none => return doc.insert path .tableArray
  | some .tableArray => return doc.clearBelow path
  | some _ => none

end Document

end NovelScript.Toml
