import NovelScript.Decimal
import NovelScript.Proofs.Text.Utf8

/-!
# Decimal numerals are read back

The digits of a number, as bytes of a file, are read as that number.
-/

namespace NovelScript

namespace Text

/-- In UTF-8 every ASCII byte is a character of its own. -/
theorem Utf8.decode_ascii {bytes : Bytes} (h : bytes.IsAscii) :
    Utf8.decode bytes = bytes.map fun b => Char.ofNat b.toNat := by
  rw [Utf8.decode]
  induction bytes with
  | nil => rfl
  | cons b rest ih =>
    have hlead : Utf8.lead b = ([Char.ofNat b.toNat], none) := if_pos (h b List.mem_cons_self)
    have hrest := ih fun c hc => h c (List.mem_cons_of_mem _ hc)
    rw [Utf8.decodeAfter, Utf8.feed, hlead]
    show Char.ofNat b.toNat :: Utf8.decodeAfter none rest = _
    rw [hrest, List.map_cons]

/-- There is nothing to trim in front of a character that is no blank. -/
theorem trimStart_of_not_isBlank {text : List Char} (h : ∀ c ∈ text.head?, isBlank c = false) :
    trimStart text = text := by
  cases text with
  | nil => rfl
  | cons c rest => exact List.dropWhile_cons_of_neg (by simp [h c rfl])

/-- There is nothing to trim from a text without blanks. -/
theorem trim_of_not_isBlank {text : List Char} (h : ∀ c ∈ text, isBlank c = false) :
    trim text = text := by
  have hback : trimStart text.reverse = text.reverse :=
    trimStart_of_not_isBlank fun c hc => h c (List.mem_reverse.mp (List.mem_of_head? hc))
  rw [trim, trimStart_of_not_isBlank fun c hc => h c (List.mem_of_head? hc), trimEnd,
    ← trimStart, hback, List.reverse_reverse]

end Text

namespace Decimal

/-- Decimal digits are below ten. -/
theorem digits_lt (n : Nat) : ∀ d ∈ digits n, d < 10 := by
  fun_induction digits n with
  | case1 n h => simpa using h
  | case2 n h ih =>
    intro d hd
    rcases List.mem_append.mp hd with hd | hd
    · exact ih d hd
    · rw [List.mem_singleton.mp hd]
      exact Nat.mod_lt n (by omega)

private theorem digits_ne_nil (n : Nat) : digits n ≠ [] := by
  rw [digits]
  split <;> simp

/-- So are padded ones. -/
theorem paddedDigits_lt (n width : Nat) : ∀ d ∈ paddedDigits n width, d < 10 := by
  intro d hd
  rcases List.mem_append.mp hd with hzero | hd
  · rw [List.eq_of_mem_replicate hzero]
    omega
  · exact digits_lt n d hd

/-- A number has at least one digit, however few are asked for. -/
theorem paddedDigits_ne_nil (n width : Nat) : paddedDigits n width ≠ [] :=
  List.append_ne_nil_of_right_ne_nil _ (digits_ne_nil n)

/-- Digits denote the number that they are made from. -/
theorem foldl_digits (n : Nat) : (digits n).foldl (fun value d => value * 10 + d) 0 = n := by
  fun_induction digits n with
  | case1 n h => simp
  | case2 n h ih =>
    rw [List.foldl_append, ih]
    simp only [List.foldl_cons, List.foldl_nil]
    omega

/-- The character of a digit. -/
def digitChar (d : Nat) : Char :=
  Char.ofNat (0x30 + d)

/-- What the byte and the character of a digit are. -/
theorem digitByte_facts : ∀ d < 10,
    digitByte d < 0x80 ∧ digitByte d ≠ Byte.newline ∧
      Char.ofNat (digitByte d).toNat = digitChar d := by
  decide

/-- The character of a decimal digit is no blank and no sign, and tells the digit. -/
theorem digitChar_facts : ∀ d < 10,
    Text.isBlank (digitChar d) = false ∧ (digitChar d).isDigit = true ∧ digitChar d ≠ '+' ∧
      digitChar d ≠ '-' ∧ (digitChar d).toNat - 48 = d := by
  decide

/-- Decimal digits are ASCII. -/
theorem isAscii_digitBytes {ds : List Nat} (h : ∀ d ∈ ds, d < 10) :
    Bytes.IsAscii (ds.map digitByte) := by
  intro b hb
  obtain ⟨d, hd, rfl⟩ := List.mem_map.mp hb
  exact (digitByte_facts d (h d hd)).1

/-- They are read as they were written. -/
theorem decode_digitBytes {ds : List Nat} (h : ∀ d ∈ ds, d < 10) :
    Text.Utf8.decode (ds.map digitByte) = ds.map digitChar := by
  rw [Text.Utf8.decode_ascii (isAscii_digitBytes h), List.map_map]
  exact List.map_congr_left fun d hd => (digitByte_facts d (h d hd)).2.2

private theorem foldl_digitChars {ds : List Nat} (h : ∀ d ∈ ds, d < 10) (value : Nat) :
    (ds.map digitChar).foldl (fun v c => v * 10 + (c.toNat - 48)) value =
      ds.foldl (fun v d => v * 10 + d) value := by
  induction ds generalizing value with
  | nil => rfl
  | cons d ds ih =>
    have hd := (digitChar_facts d (h d List.mem_cons_self)).2.2.2.2
    rw [List.map_cons, List.foldl_cons, List.foldl_cons, hd,
      ih fun d hd => h d (List.mem_cons_of_mem _ hd)]

/-- Digits without a sign are read as the number that they denote, if it fits. -/
theorem size?_digitChars {ds : List Nat} (hds : ds ≠ []) (h : ∀ d ∈ ds, d < 10)
    (hfits : ds.foldl (fun v d => v * 10 + d) 0 < UInt64.size) :
    size? (ds.map digitChar) = some (ds.foldl (fun v d => v * 10 + d) 0) := by
  obtain ⟨d, rest, rfl⟩ := List.exists_cons_of_ne_nil hds
  have hplus := (digitChar_facts d (h d List.mem_cons_self)).2.2.1
  have hall : ((d :: rest).map digitChar).all Char.isDigit = true := by
    refine List.all_eq_true.mpr fun c hc => ?_
    obtain ⟨e, he, rfl⟩ := List.mem_map.mp hc
    exact (digitChar_facts e (h e he)).2.1
  have hvalue := foldl_digitChars h 0
  rw [size?]
  · rw [if_neg (by rw [hall]; simp)]
    dsimp only
    rw [hvalue, if_pos hfits]
  · exact fun further heq => hplus (List.cons.inj heq).1

/-- **A stored number that fits in 64 bits is read back.** -/
theorem size?_trim_decode_digits {n : Nat} (h : n < UInt64.size) :
    size? (Text.trim (Text.Utf8.decode ((digits n).map digitByte))) = some n := by
  have hdigits := digits_lt n
  have hplain : ∀ c ∈ (digits n).map digitChar, Text.isBlank c = false := by
    intro c hc
    obtain ⟨d, hd, rfl⟩ := List.mem_map.mp hc
    exact (digitChar_facts d (hdigits d hd)).1
  have hvalue := foldl_digits n
  rw [decode_digitBytes hdigits, Text.trim_of_not_isBlank hplain,
    size?_digitChars (digits_ne_nil n) hdigits (by rwa [hvalue]), hvalue]

end Decimal

end NovelScript
