import NovelScript.Proofs.Ahead
import NovelScript.Proofs.Action
import NovelScript.Proofs.Expression.Tree

/-!
# Reading numbers

The reader of literals and aliases finds the number that was written, and stops right after it,
provided that what follows cannot be taken for a part of it.
-/

namespace NovelScript

/-! ## Values of digits -/

/-- Reading digits in 32-bit arithmetic gives the number that they denote, cut to 32 bits. -/
theorem Decimal.foldl_shiftIn (base : Nat) (digits : List Nat) (n : Nat) :
    digits.foldl (Decimal.shiftIn (Int32.ofNat base)) (Int32.ofNat n) =
      Int32.ofNat (digits.foldl (fun n d => n * base + d) n) := by
  induction digits generalizing n with
  | nil => rfl
  | cons d digits ih =>
    rw [List.foldl_cons, List.foldl_cons, ← ih, Int32.ofNat_add, Int32.ofNat_mul]
    rfl

/-! ## Classes of bytes -/

namespace Byte

/-- A hexadecimal digit may be a part of a name. -/
theorem isNameByte_of_hexDigit? {b : UInt8} (h : (hexDigit? b).isSome = true) :
    isNameByte b = true := by
  unfold hexDigit? at h
  simp only [isNameByte, isAlpha, isUpper, isLower, isDigit] at *
  grind

/-- A byte of a name is no blank. -/
theorem isNameByte_eq_false_of_isBlank {b : UInt8} (h : isBlank b = true) :
    isNameByte b = false := by
  simp only [isNameByte, isAlpha, isUpper, isLower, isDigit, isBlank, space, tab, underscore] at *
  grind

/-- Case does not matter for bytes of names. -/
theorem isNameByte_lower (b : UInt8) : isNameByte (lower b) = isNameByte b := by
  simp only [isNameByte, isAlpha, isUpper, isLower, isDigit, lower, underscore]
  grind

/-- Nor for bytes that names start with. -/
theorem isNameStart_lower (b : UInt8) : isNameStart (lower b) = isNameStart b := by
  simp only [isNameStart, isAlpha, isUpper, isLower, lower, underscore]
  grind

/-- No name starts with a digit. -/
theorem isDigit_eq_false_of_isNameStart {b : UInt8} (h : isNameStart b = true) :
    isDigit b = false := by
  simp only [isNameStart, isAlpha, isUpper, isLower, isDigit, underscore] at *
  grind

/-- A name starts with a byte of a name. -/
theorem isNameByte_of_isNameStart {b : UInt8} (h : isNameStart b = true) :
    isNameByte b = true := by
  simp only [isNameStart, isNameByte] at *
  grind

end Byte

namespace Expression

/-- The digits that `read` finds in a text are those of its bytes, and it finds one in every
byte. -/
theorem digits_of_mapM {read : UInt8 → Option Nat} {text : Bytes} {digits : List Nat}
    (h : text.mapM read = some digits) :
    digits = text.map (fun b => (read b).getD 0) ∧ ∀ b ∈ text, (read b).isSome = true := by
  induction text generalizing digits with
  | nil =>
    obtain rfl : [] = digits := by simpa using h
    simp
  | cons b text ih =>
    obtain ⟨d, hd, rest, hrest, rfl⟩ : ∃ d, read b = some d ∧ ∃ rest, text.mapM read = some rest ∧
        d :: rest = digits := by
      simpa [List.mapM_cons, Option.bind_eq_some_iff] using h
    obtain ⟨hdigits, hall⟩ := ih hrest
    constructor
    · simp [hd, hdigits]
    · intro c hc
      rcases List.mem_cons.mp hc with rfl | hc
      · simp [hd]
      · exact hall c hc

/-- Decimal digits are read as the number that they denote. -/
theorem byteValue_eq {text : Bytes} {digits : List Nat} {n : Nat}
    (hread : text.mapM Byte.digit? = some digits) (hvalue : positional 10 digits = n) :
    Decimal.byteValue text = Int32.ofNat n := by
  obtain ⟨rfl, hall⟩ := digits_of_mapM hread
  have hmap : text.map (fun b => (b - Byte.zero).toNat) =
      text.map fun b => (Byte.digit? b).getD 0 := by
    apply List.map_congr_left
    intro b hb
    have hsome := hall b hb
    unfold Byte.digit? at hsome ⊢
    split at hsome <;> simp_all
  rw [Decimal.byteValue, Decimal.value, hmap, ← hvalue]
  exact Decimal.foldl_shiftIn 10 _ 0

/-- Hexadecimal digits are read as the number that they denote. -/
theorem hexValue_eq {text : Bytes} {digits : List Nat} {n : Nat}
    (hread : text.mapM Byte.hexDigit? = some digits) (hvalue : positional 16 digits = n) :
    text.foldl (fun value b => Decimal.shiftIn 16 value ((Byte.hexDigit? b).getD 0)) 0 =
      Int32.ofNat n := by
  obtain ⟨rfl, -⟩ := digits_of_mapM hread
  rw [← hvalue, positional, ← Decimal.foldl_shiftIn 16 _ 0, List.foldl_map]
  rfl

/-! ## Literals and aliases -/

/-- What may follow the text of a number right away: no byte of a name, except that the remainder
operator may follow a literal. -/
def Apart (afterName : Bool) (follow : Bytes) : Prop :=
  ∀ b ∈ follow.head?, Byte.isNameByte b = true → afterName = false ∧ Byte.lower b = 0x6d

/-- No digit of either kind can follow. -/
theorem Apart.hexDigit? {afterName : Bool} {follow : Bytes} (h : Apart afterName follow) :
    ∀ b ∈ follow.head?, (Byte.hexDigit? b).isSome = false := by
  intro b hb
  by_contra h'
  have hhex : (Byte.hexDigit? b).isSome = true := by simpa [Option.isSome_iff_ne_none] using h'
  obtain ⟨-, hm⟩ := h b hb (Byte.isNameByte_of_hexDigit? hhex)
  unfold Byte.hexDigit? at hhex
  simp only [Byte.lower, Byte.isUpper, Byte.isDigit] at *
  grind

/-- No decimal digit can follow. -/
theorem Apart.isDigit {afterName : Bool} {follow : Bytes} (h : Apart afterName follow) :
    ∀ b ∈ follow.head?, Byte.isDigit b = false := by
  intro b hb
  have hhex := h.hexDigit? b hb
  by_contra h'
  have hdigit : Byte.isDigit b = true := by simpa using h'
  simp [Byte.hexDigit?, hdigit] at hhex

/-- Decimal digits are not taken for a hexadecimal literal. -/
theorem not_hexMark_of_digits {text follow : Bytes} {x : UInt8} (hx : x = 0x78 ∨ x = 0x58)
    (hdigits : ∀ b ∈ text, Byte.isDigit b = true) (hnonempty : text ≠ [])
    (hfollow : Apart false follow) : [Byte.zero, x].isPrefixOf (text ++ follow) = false := by
  have hdigit : Byte.isDigit x = false := by rcases hx with rfl | rfl <;> rfl
  have hname : Byte.isNameByte x = true ∧ Byte.lower x ≠ 0x6d := by
    rcases hx with rfl | rfl <;> decide
  rw [← Bool.not_eq_true, List.isPrefixOf_iff_prefix]
  rintro ⟨tail, htail⟩
  match text, hnonempty with
  | [d], _ =>
    have hhead : x ∈ follow.head? := by
      obtain ⟨-, rfl⟩ : Byte.zero = d ∧ x :: tail = follow := by simpa using htail
      rfl
    exact hname.2 (hfollow x hhead hname.1).2
  | d :: d' :: text, _ =>
    obtain ⟨-, rfl, -⟩ : Byte.zero = d ∧ x = d' ∧ tail = text ++ follow := by simpa using htail
    have := hdigits x (by simp)
    simp [hdigit] at this

variable {scope : Operand.Scope} {pos : Nat}

/-- A literal is read as the number that it denotes. -/
theorem number?_of_numeral (warnings : List Warning) {n : Nat} {text follow : Bytes}
    (h : Numeral n text)
    (hahead : scope.script.ahead pos = text ++ follow) (hfollow : Apart false follow) :
    scope.number? ⟨pos, warnings⟩ =
      .ok (some (Int32.ofNat n)) ⟨pos + text.length, warnings⟩ := by
  cases h with
  | decimal hnonempty hread hvalue =>
    have hdigits : ∀ b ∈ text, Byte.isDigit b = true := by
      intro b hb
      have hsome := (digits_of_mapM hread).2 b hb
      unfold Byte.digit? at hsome
      split at hsome
      · assumption
      · simp at hsome
    have hmark : (scope.script.startsWith [0x30, 0x78] pos ||
        scope.script.startsWith [0x30, 0x58] pos) = false := by
      rw [Script.startsWith_eq, Script.startsWith_eq, hahead]
      simp only [Bool.or_eq_false_iff]
      exact ⟨not_hexMark_of_digits (.inl rfl) hdigits hnonempty hfollow,
        not_hexMark_of_digits (.inr rfl) hdigits hnonempty hfollow⟩
    have hfirst : scope.script.holdsAt pos Byte.isDigit = true := by
      obtain ⟨d, text, rfl⟩ := List.exists_cons_of_ne_nil hnonempty
      rw [Script.holdsAt_eq, hahead]
      simpa using hdigits d (by simp)
    have hstop := Script.advanceWhile_append hahead hdigits hfollow.isDigit
    rw [Operand.Scope.number?, Action.bind_of_ok (show Operand.position _ = .ok pos _ from rfl)]
    simp only [hmark, hfirst, hstop, Script.slice_append hahead, byteValue_eq hread hvalue]
    rfl
  | @hexadecimal x digits _ hx hread hvalue =>
    have hmark : (scope.script.startsWith [0x30, 0x78] pos ||
        scope.script.startsWith [0x30, 0x58] pos) = true := by
      rw [Script.startsWith_eq, Script.startsWith_eq, hahead]
      rcases hx with rfl | rfl <;> simp [Byte.zero, List.isPrefixOf]
    have hahead' : scope.script.ahead (pos + 2) = digits ++ follow :=
      Script.ahead_succ (Script.ahead_succ hahead)
    have hstop := Script.advanceWhile_append hahead' (digits_of_mapM hread).2 hfollow.hexDigit?
    rw [Operand.Scope.number?, Action.bind_of_ok (show Operand.position _ = .ok pos _ from rfl)]
    simp only [hmark, hstop, Script.slice_append hahead', hexValue_eq hread hvalue, if_true]
    have hlength : pos + (Byte.zero :: x :: digits).length = pos + 2 + digits.length := by
      simp only [List.length_cons]
      omega
    rw [hlength]
    rfl

/-- An alias is read as its value. -/
theorem number?_of_alias (warnings : List Warning) {first : UInt8} {rest follow : Bytes}
    {value : Int32}
    (hfirst : Byte.isNameStart first = true) (hrest : ∀ b ∈ rest, Byte.isNameByte b = true)
    (hvalue : scope.aliases.number? (Bytes.toName (first :: rest)) = some value)
    (hahead : scope.script.ahead pos = first :: rest ++ follow) (hfollow : Apart true follow) :
    scope.number? ⟨pos, warnings⟩ =
      .ok (some value) ⟨pos + (first :: rest).length, warnings⟩ := by
  have hname : ∀ b ∈ first :: rest, Byte.isNameByte b = true := by
    intro b hb
    rcases List.mem_cons.mp hb with rfl | hb
    · exact Byte.isNameByte_of_isNameStart hfirst
    · exact hrest b hb
  have hdigit := Byte.isDigit_eq_false_of_isNameStart hfirst
  have hmark : (scope.script.startsWith [0x30, 0x78] pos ||
      scope.script.startsWith [0x30, 0x58] pos) = false := by
    have hne : ¬ 0x30 = first := by
      rintro rfl
      exact absurd hdigit (by decide)
    rw [Script.startsWith_eq, Script.startsWith_eq, hahead]
    simp [List.isPrefixOf, hne]
  have hstart : scope.script.holdsAt pos Byte.isNameStart = true := by
    rw [Script.holdsAt_eq, hahead]
    simpa using hfirst
  have hnumber : scope.script.holdsAt pos Byte.isDigit = false := by
    rw [Script.holdsAt_eq, hahead]
    simpa using hdigit
  have hend : ∀ b ∈ follow.head?, Byte.isNameByte b = false := by
    intro b hb
    by_contra h'
    exact absurd (hfollow b hb (by simpa using h')).1 (by decide)
  have hstop := Script.advanceWhile_append hahead hname hend
  rw [Operand.Scope.number?, Action.bind_of_ok (show Operand.position _ = .ok pos _ from rfl)]
  simp only [hmark, hnumber, Script.name?, hstart, hstop, Script.slice_append hahead, if_true,
    hvalue]
  rfl

/-- A constant is read as its value, and it has one. -/
theorem number?_of_written (warnings : List Warning) {number : Constant} {text follow : Bytes}
    (h : number.Written scope.aliases text) (hahead : scope.script.ahead pos = text ++ follow)
    (hfollow : Apart number.isName follow) :
    ∃ value, number.value? scope.aliases = some value ∧
      scope.number? ⟨pos, warnings⟩ = .ok (some value) ⟨pos + text.length, warnings⟩ := by
  cases number with
  | literal n => exact ⟨_, rfl, number?_of_numeral warnings h hahead hfollow⟩
  | named name =>
    obtain ⟨⟨first, rest, rfl, hfirst, hrest⟩, rfl, hsome⟩ := h
    obtain ⟨value, hvalue⟩ := Option.isSome_iff_exists.mp hsome
    exact ⟨value, hvalue, number?_of_alias warnings hfirst hrest hvalue hahead hfollow⟩

end Expression

end NovelScript
