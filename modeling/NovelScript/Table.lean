/-!
# Tables in key order

A table is a list of keys and values in which the keys increase, so that two tables with the same
entries are equal and the entries come out in the order of their keys.
-/

namespace NovelScript

/-- Entries by increasing key. -/
abbrev Table (κ α : Type) := List (κ × α)

namespace Table

variable {κ α : Type} [DecidableEq κ]

/-- The value of a key. -/
def get? (table : Table κ α) (key : κ) : Option α :=
  table.lookup key

/-- Whether a key has a value. -/
def contains (table : Table κ α) (key : κ) : Bool :=
  (table.get? key).isSome

/-- Looking up a key, by the first entry of the table. -/
theorem get?_cons (k : κ) (v : α) (rest : Table κ α) (key : κ) :
    get? ((k, v) :: rest) key = if key = k then some v else rest.get? key := by
  unfold get?
  rw [List.lookup_cons]
  by_cases h : key = k
  · rw [if_pos h, beq_iff_eq.mpr h]
  · rw [if_neg h, beq_eq_false_iff_ne.mpr h]

variable [LT κ] [∀ a b : κ, Decidable (a < b)]

/-- Gives a key a value, in place of the one it had. -/
def insert (key : κ) (value : α) : Table κ α → Table κ α
  | [] => [(key, value)]
  | (k, v) :: rest =>
    if key < k then (key, value) :: (k, v) :: rest
    else if key = k then (key, value) :: rest
    else (k, v) :: insert key value rest

/-- An inserted value is found under its key, and all other keys are found as before. -/
theorem get?_insert (table : Table κ α) (key other : κ) (value : α) :
    (insert key value table).get? other =
      if other = key then some value else table.get? other := by
  induction table with
  | nil => exact get?_cons key value [] other
  | cons entry rest ih =>
    obtain ⟨k, v⟩ := entry
    unfold insert
    split
    · exact get?_cons key value _ other
    · split
      · rename_i hk
        subst hk
        rw [get?_cons, get?_cons]
        split <;> rfl
      · rename_i hk
        rw [get?_cons, get?_cons, ih]
        by_cases h : other = key
        · subst h
          rw [if_neg hk, if_pos rfl, if_pos rfl]
        · rw [if_neg h, if_neg h]

end Table

end NovelScript
