import NovelScript.Fault

/-!
# Actions that may fail

An action reads and changes a state and may end with a fault. What it changed before the fault
stays changed.
-/

namespace NovelScript

/-- A computation on a state `σ` that may fail. -/
abbrev Action (σ α : Type) := EStateM Fault σ α

namespace Action

variable {σ α : Type}

/-- A result that may be a fault, without any change of state. -/
def ofExcept : Except Fault α → Action σ α
  | .ok a => pure a
  | .error fault => throw fault

end Action

end NovelScript
