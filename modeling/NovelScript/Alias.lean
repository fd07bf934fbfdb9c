import NovelScript.Byte
import NovelScript.Warning

/-!
# Aliases

A script names constants with numeric and string aliases. The first definition of a name counts;
later ones are reported and dropped. Names are compared in lower case.
-/

namespace NovelScript

/-- The constants that a script has named, in the order of definition. -/
structure Aliases where
  /-- Numeric aliases. -/
  numbers : List (String × Int32) := []
  /-- String aliases. -/
  strings : List (String × Bytes) := []
  deriving DecidableEq, Repr

namespace Aliases

/-- Value of a numeric alias. -/
def number? (a : Aliases) (name : String) : Option Int32 :=
  a.numbers.lookup name.toLower

/-- Value of a string alias. -/
def string? (a : Aliases) (name : String) : Option Bytes :=
  a.strings.lookup name.toLower

/-- Defines a numeric alias, or reports that it was defined before. -/
def addNumber (a : Aliases) (name : String) (value : Int32) : Aliases × List Notice :=
  if (a.number? name).isSome then (a, [.numberAliasKept name.toLower])
  else ({ a with numbers := a.numbers ++ [(name.toLower, value)] }, [])

/-- Defines a string alias, or reports that it was defined before. -/
def addString (a : Aliases) (name : String) (value : Bytes) : Aliases × List Notice :=
  if (a.string? name).isSome then (a, [.stringAliasKept name.toLower])
  else ({ a with strings := a.strings ++ [(name.toLower, value)] }, [])

end Aliases

end NovelScript
