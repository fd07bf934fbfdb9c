import Mathlib.Data.List.TakeWhile
import NovelScript.Script

/-!
# What lies ahead of an address

Scanning moves an address through an array of bytes. Proofs about scanning are easier on the list
of the bytes from the address on, so this file states every scanning function of a script in
terms of that list. A reader that finds `front ++ rest` ahead and passes over `front` finds `rest`
ahead afterwards.
-/

namespace NovelScript.Script

/-- The bytes from an address on. -/
def ahead (s : Script) (pos : Nat) : Bytes :=
  s.bytes.toList.drop pos

/-- Passing over bytes drops them from what lies ahead. -/
theorem ahead_add (s : Script) (pos n : Nat) : s.ahead (pos + n) = (s.ahead pos).drop n := by
  simp [ahead, List.drop_drop]

/-- After the front of what lies ahead comes its rest. -/
theorem ahead_add_length {s : Script} {pos : Nat} {front rest : Bytes}
    (h : s.ahead pos = front ++ rest) : s.ahead (pos + front.length) = rest := by
  rw [ahead_add, h, List.drop_left]

/-- After the first byte ahead come the others. -/
theorem ahead_succ {s : Script} {pos : Nat} {b : UInt8} {rest : Bytes}
    (h : s.ahead pos = b :: rest) : s.ahead (pos + 1) = rest :=
  ahead_add_length (show s.ahead pos = [b] ++ rest from h)

/-- What lies ahead reaches up to the end. -/
theorem length_ahead (s : Script) (pos : Nat) : (s.ahead pos).length = s.size - pos := by
  simp [ahead, size]

/-- The byte at an address is the first one ahead. -/
theorem byte?_eq_head? (s : Script) (pos : Nat) : s.byte? pos = (s.ahead pos).head? := by
  simp [byte?, ahead, List.head?_drop]

/-- The first byte ahead is at the address. -/
theorem isAt_cons {s : Script} {pos : Nat} {b : UInt8} {rest : Bytes}
    (h : s.ahead pos = b :: rest) (c : UInt8) : s.isAt pos c = (b == c) := by
  rw [isAt, byte?_eq_head?, h]
  simp

/-- A byte that is not the first one ahead does not stand at the address. -/
theorem isAt_eq_false {s : Script} {pos : Nat} {b : UInt8} (h : (s.ahead pos).head? ≠ some b) :
    s.isAt pos b = false := by
  rw [isAt, byte?_eq_head?]
  simpa using h

/-- A predicate holds at an address if it holds of the first byte ahead. -/
theorem holdsAt_eq (s : Script) (pos : Nat) (p : UInt8 → Bool) :
    s.holdsAt pos p = (s.ahead pos).head?.any p := by
  rw [holdsAt, byte?_eq_head?]

/-- Scanning passes over the longest front whose bytes satisfy the predicate. -/
theorem advanceWhile_eq (s : Script) (p : UInt8 → Bool) (pos : Nat) :
    s.advanceWhile p pos = pos + ((s.ahead pos).takeWhile p).length := by
  fun_induction advanceWhile s p pos with
  | case1 pos hpos hp ih =>
    have hcons : s.ahead pos = s.bytes[pos] :: s.ahead (pos + 1) := by
      simp [ahead, List.drop_eq_getElem_cons (show pos < s.bytes.toList.length by simpa using hpos)]
    rw [ih, hcons, List.takeWhile_cons_of_pos hp, List.length_cons]
    omega
  | case2 pos hpos hp =>
    have hcons : s.ahead pos = s.bytes[pos] :: s.ahead (pos + 1) := by
      simp [ahead, List.drop_eq_getElem_cons (show pos < s.bytes.toList.length by simpa using hpos)]
    rw [hcons, List.takeWhile_cons_of_neg hp]
    rfl
  | case3 pos hpos =>
    have hnil : s.ahead pos = [] := by
      simp only [ahead, List.drop_eq_nil_iff, Array.length_toList]
      omega
    rw [hnil]
    rfl

/-- Scanning passes over a front whose bytes satisfy the predicate, if the byte after it does
not. -/
theorem advanceWhile_append {s : Script} {p : UInt8 → Bool} {pos : Nat} {front rest : Bytes}
    (h : s.ahead pos = front ++ rest) (hfront : ∀ b ∈ front, p b = true)
    (hrest : ∀ b ∈ rest.head?, p b = false) :
    s.advanceWhile p pos = pos + front.length := by
  rw [advanceWhile_eq, h, List.takeWhile_append_of_pos hfront]
  cases rest with
  | nil => simp
  | cons b rest =>
    have hb : p b = false := hrest b rfl
    rw [List.takeWhile_cons_of_neg (by simp [hb]), List.append_nil]

/-- The bytes between two addresses are the front of what lies ahead of the first. -/
theorem slice_eq_take (s : Script) (start n : Nat) :
    s.slice start (start + n) = (s.ahead start).take n := by
  simp [slice, ahead, List.extract_eq_take_drop]

/-- The bytes that were passed over. -/
theorem slice_append {s : Script} {pos : Nat} {front rest : Bytes}
    (h : s.ahead pos = front ++ rest) : s.slice pos (pos + front.length) = front := by
  rw [slice_eq_take, h, List.take_left]

/-- A token stands at an address if it is the front of what lies ahead. -/
theorem startsWith_eq (s : Script) (token : Bytes) (pos : Nat) :
    s.startsWith token pos = token.isPrefixOf (s.ahead pos) := by
  induction token generalizing pos with
  | nil => rfl
  | cons b token ih =>
    rw [startsWith, ih, ahead_add]
    cases hahead : s.ahead pos with
    | nil => simp [isAt_eq_false, hahead]
    | cons c rest => simp [isAt_cons hahead, List.isPrefixOf_cons_cons, Bool.beq_comm (a := c)]

/-- A word stands at an address if, in lower case, it is the front of what lies ahead. -/
theorem startsWithWord_iff (s : Script) (word : Bytes) (pos : Nat) :
    s.startsWithWord word pos = true ↔
      ((s.ahead pos).take word.length).map Byte.lower = word.map Byte.lower := by
  induction word generalizing pos with
  | nil => simp [startsWithWord]
  | cons b word ih =>
    rw [startsWithWord, Bool.and_eq_true, ih, ahead_add, holdsAt_eq]
    cases hahead : s.ahead pos with
    | nil => simp
    | cons c rest => simp

end NovelScript.Script
