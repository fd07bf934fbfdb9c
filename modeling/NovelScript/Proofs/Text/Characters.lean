import Mathlib.Data.List.Basic
import NovelScript.Encoding
import NovelScript.Proofs.Decimal

/-!
# Where characters begin

The first byte of a character in UTF-8 tells its width, and no other byte of a character looks like
a first one. So a text may be cut in front of any first byte, and both parts are texts again; and it
falls apart into its characters, so that what is put together from some of them is a text.
-/

namespace NovelScript

/-- The bytes are the UTF-8 form of some text. -/
def Bytes.IsText (bytes : Bytes) : Prop :=
  ∃ text : String, bytes = ofText text

/-! ## Single characters -/

/-- Every character is written with at least one byte. -/
theorem exists_encodeChar_eq (c : Char) :
    ∃ first rest, String.utf8EncodeChar c = first :: rest :=
  List.exists_cons_of_ne_nil String.utf8EncodeChar_ne_nil

/-- The first byte of a character tells its width. -/
theorem Encoding.width_of_encodeChar {c : Char} {first : UInt8} {rest : Bytes}
    (h : String.utf8EncodeChar c = first :: rest) (narrow : Bool) :
    utf8.width narrow first = rest.length + 1 := by
  have hone : ∀ n < 0x80, utf8.width narrow (UInt8.ofNat n) = 1 := by decide +revert
  have htwo : ∀ n < 32, utf8.width narrow (UInt8.ofNat (n + 0xc0)) = 2 := by decide +revert
  have hthree : ∀ n < 16, utf8.width narrow (UInt8.ofNat (n + 0xe0)) = 3 := by decide +revert
  have hfour : ∀ n < 8, utf8.width narrow (UInt8.ofNat (n + 0xf0)) = 4 := by decide +revert
  simp only [String.utf8EncodeChar] at h
  split_ifs at h with h1 h2 h3
  · cases h
    exact hone _ (by omega)
  · cases h
    exact htwo _ (Nat.mod_lt _ (by omega))
  · cases h
    exact hthree _ (Nat.mod_lt _ (by omega))
  · cases h
    exact hfour _ (Nat.mod_lt _ (by omega))

/-- A character begins with a first byte, and has no other one. -/
theorem firstByte_of_encodeChar {c : Char} {first : UInt8} {rest : Bytes}
    (h : String.utf8EncodeChar c = first :: rest) :
    first.IsUTF8FirstByte ∧ ∀ b ∈ rest, ¬ b.IsUTF8FirstByte := by
  have hbyte : ∀ (i : Nat) (hi : i < (first :: rest).length),
      (first :: rest)[i].IsUTF8FirstByte ↔ i = 0 := by
    rw [← h]
    exact fun i hi => UInt8.isUTF8FirstByte_getElem_utf8EncodeChar
  refine ⟨(hbyte 0 (Nat.succ_pos _)).mpr rfl, fun b hb => ?_⟩
  obtain ⟨i, hi, rfl⟩ := List.getElem_of_mem hb
  intro hfirst
  exact absurd ((hbyte (i + 1) (Nat.succ_lt_succ hi)).mp hfirst) (Nat.succ_ne_zero i)

/-- An ASCII byte is a character of its own. -/
theorem encodeChar_ascii {b : UInt8} (h : b < 0x80) :
    String.utf8EncodeChar (Char.ofNat b.toNat) = [b] := by
  have hlt : b.toNat < 0x80 := h
  have hval : (Char.ofNat b.toNat).val.toNat = b.toNat := by
    have hvalid : b.toNat.isValidChar := .inl (by omega)
    rw [Char.ofNat, dif_pos hvalid]
    rfl
  simp only [String.utf8EncodeChar, hval]
  rw [if_pos (by omega), UInt8.ofNat_toNat]

/-- The case of a letter makes no difference to its width. -/
theorem Encoding.width_lower (narrow : Bool) (b : UInt8) :
    utf8.width narrow (Byte.lower b) = utf8.width narrow b := by
  have hascii : ∀ b : UInt8, b < 0x80 → utf8.width narrow b = 1 := fun _ h =>
    width_of_encodeChar (encodeChar_ascii h) narrow
  rw [Byte.lower]
  split
  · next hupper =>
    simp only [Byte.isUpper, Bool.and_eq_true, decide_eq_true_eq] at hupper
    rw [hascii b (by grind), hascii _ (by grind)]
  · rfl

/-- An ASCII byte is a first byte. -/
theorem firstByte_of_ascii {b : UInt8} (h : b < 0x80) : b.IsUTF8FirstByte :=
  (firstByte_of_encodeChar (encodeChar_ascii h)).1

/-! ## Texts -/

namespace Bytes

variable {bytes more : Bytes}

/-- A text is a sequence of characters, written one after another. -/
theorem isText_iff : bytes.IsText ↔ ∃ chars : List Char, bytes = chars.flatMap String.utf8EncodeChar := by
  constructor
  · rintro ⟨text, rfl⟩
    exact ⟨text.toList, rfl⟩
  · rintro ⟨chars, rfl⟩
    exact ⟨String.ofList chars, by rw [ofText, String.toList_ofList]⟩

private theorem isText_flatMap (chars : List Char) : IsText (chars.flatMap String.utf8EncodeChar) :=
  isText_iff.mpr ⟨chars, rfl⟩

/-- Nothing is a text. -/
theorem isText_nil : IsText [] :=
  isText_flatMap []

private theorem isText_encodeChar (c : Char) : IsText (String.utf8EncodeChar c) :=
  isText_iff.mpr ⟨[c], by simp⟩

/-- Two texts make a text. -/
theorem IsText.append (h : bytes.IsText) (hmore : more.IsText) : (bytes ++ more).IsText := by
  obtain ⟨chars, rfl⟩ := isText_iff.mp h
  obtain ⟨further, rfl⟩ := isText_iff.mp hmore
  exact isText_iff.mpr ⟨chars ++ further, List.flatMap_append.symm⟩

private theorem isText_flatten {parts : List Bytes} (h : ∀ part ∈ parts, part.IsText) :
    IsText parts.flatten := by
  induction parts with
  | nil => exact isText_nil
  | cons part parts ih =>
    obtain ⟨hpart, hparts⟩ := List.forall_mem_cons.mp h
    exact hpart.append (ih hparts)

/-- ASCII bytes are a text. -/
theorem isText_of_ascii (h : IsAscii bytes) : bytes.IsText := by
  induction bytes with
  | nil => exact isText_nil
  | cons b bytes ih =>
    obtain ⟨hb, hbytes⟩ := List.forall_mem_cons.mp h
    rw [← List.singleton_append, ← encodeChar_ascii hb]
    exact (isText_encodeChar _).append (ih hbytes)

/-- A text begins with a first byte. -/
theorem IsText.firstByte (h : bytes.IsText) : ∀ b ∈ bytes.head?, b.IsUTF8FirstByte := by
  obtain ⟨chars, rfl⟩ := isText_iff.mp h
  intro b hb
  cases chars with
  | nil => cases hb
  | cons c chars =>
    obtain ⟨first, rest, hc⟩ := exists_encodeChar_eq c
    rw [List.flatMap_cons, hc] at hb
    cases hb
    exact (firstByte_of_encodeChar hc).1

/-- **A text may be cut in front of a first byte.** -/
theorem IsText.cut (h : (bytes ++ more).IsText) (hmore : ∀ b ∈ more.head?, b.IsUTF8FirstByte) :
    bytes.IsText ∧ more.IsText := by
  obtain ⟨chars, hchars⟩ := isText_iff.mp h
  induction chars generalizing bytes with
  | nil =>
    obtain ⟨rfl, rfl⟩ := List.append_eq_nil_iff.mp hchars
    exact ⟨isText_nil, isText_nil⟩
  | cons c chars ih =>
    obtain ⟨first, rest, hc⟩ := exists_encodeChar_eq c
    cases bytes with
    | nil => exact ⟨isText_nil, h⟩
    | cons b bytes =>
      rw [List.flatMap_cons, hc, List.cons_append, List.cons_append] at hchars
      obtain ⟨rfl, hrest⟩ := List.cons.inj hchars
      -- The cut is after the character, or else inside it, where no first byte is.
      have hafter : ∃ behind, bytes = rest ++ behind ∧
          behind ++ more = chars.flatMap String.utf8EncodeChar := by
        rcases List.append_eq_append_iff.mp hrest with ⟨tail, rfl, rfl⟩ | ⟨behind, rfl, hbehind⟩
        · cases tail with
          | nil => exact ⟨[], by simp, by simp⟩
          | cons b tail =>
            have hinside := (firstByte_of_encodeChar hc).2 b (by simp)
            exact absurd (hmore b rfl) hinside
        · exact ⟨behind, rfl, hbehind.symm⟩
      obtain ⟨behind, rfl, hbehind⟩ := hafter
      obtain ⟨hfront, hback⟩ := ih (hbehind ▸ isText_flatMap chars) hbehind
      refine ⟨?_, hback⟩
      rw [← List.cons_append, ← hc]
      exact (isText_encodeChar c).append hfront

/-- The first character of a text and the text after it. -/
theorem IsText.cons {first : UInt8} (h : IsText (first :: bytes)) :
    ∃ rest behind, bytes = rest ++ behind ∧ IsText (first :: rest) ∧ behind.IsText ∧
      ∀ narrow, Encoding.utf8.width narrow first = rest.length + 1 := by
  obtain ⟨chars, hchars⟩ := isText_iff.mp h
  cases chars with
  | nil => cases hchars
  | cons c chars =>
    obtain ⟨first', rest, hc⟩ := exists_encodeChar_eq c
    rw [List.flatMap_cons, hc, List.cons_append] at hchars
    obtain ⟨rfl, rfl⟩ := List.cons.inj hchars
    exact ⟨rest, _, rfl, hc ▸ isText_encodeChar c, isText_flatMap chars,
      Encoding.width_of_encodeChar hc⟩

/-- What comes after an ASCII byte is a text. -/
theorem IsText.tail {first : UInt8} (h : IsText (first :: bytes)) (hascii : first < 0x80) :
    bytes.IsText := by
  obtain ⟨rest, behind, rfl, -, hbehind, hwidth⟩ := h.cons
  have hone := Encoding.width_of_encodeChar (encodeChar_ascii hascii) false
  rw [hwidth] at hone
  obtain rfl : rest = [] := List.length_eq_zero_iff.mp (Nat.succ.inj hone)
  exact hbehind

end Bytes

/-! ## Characters of a text -/

namespace Encoding

open NovelScript.Bytes

/-- A text falls apart into texts. -/
theorem isText_of_mem_chars {bytes : Bytes} (h : bytes.IsText) :
    ∀ char ∈ utf8.chars bytes, IsText char := by
  fun_induction chars utf8 bytes with
  | case1 => exact List.forall_mem_nil _
  | case2 first bytes more ih =>
    obtain ⟨rest, behind, rfl, hfirst, hbehind, hwidth⟩ := h.cons
    have hmore : more = rest.length := by
      show utf8.width false first - 1 = rest.length
      rw [hwidth, Nat.add_sub_cancel]
    rw [hmore, List.drop_left] at ih
    rw [hmore, List.take_left, List.drop_left]
    exact List.forall_mem_cons.mpr ⟨hfirst, ih hbehind⟩

/-- Some characters out of the middle of a text are a text. -/
theorem isText_charSlice {bytes : Bytes} (h : bytes.IsText) (start count : Nat) :
    IsText (utf8.charSlice bytes start count) := by
  refine isText_flatten fun char hchar => isText_of_mem_chars h char ?_
  exact List.mem_of_mem_drop (List.mem_of_mem_take hchar)

/-- What is encoded in UTF-8 is a text. -/
theorem isText_encode (text : String) (table : Text.ShiftJis.Table) :
    IsText (utf8.encode text table) :=
  ⟨text, rfl⟩

end Encoding

/-! ## Numbers -/

namespace Decimal

open NovelScript.Bytes

/-- A number in digits is a text. -/
theorem isText_ofInt (value : Int32) : IsText (ofInt value) := by
  have hdigits := isAscii_digitBytes (digits_lt value.toInt.natAbs)
  refine isText_of_ascii ?_
  rw [ofInt]
  split
  · exact List.forall_mem_cons.mpr ⟨by decide, hdigits⟩
  · exact hdigits

end Decimal

/-- A formatted number is a text in UTF-8. -/
theorem Encoding.isText_formatNumber (value : Int32) (wide : Bool) (pad : Nat) :
    Bytes.IsText (utf8.formatNumber value wide pad) := by
  have hminus : Bytes.IsText [Byte.minus] := Bytes.isText_of_ascii (by decide)
  have hwide : Bytes.IsText utf8.wideMinus := Bytes.isText_encodeChar (Char.ofNat 0xff0d)
  refine Bytes.IsText.append ?_ ?_
  · split_ifs
    · exact hwide
    · exact hminus
    · exact Bytes.isText_nil
  · have hpadded := Decimal.paddedDigits_lt value.toInt.natAbs pad
    rw [List.flatMap_def]
    refine Bytes.isText_flatten fun part hpart => ?_
    obtain ⟨d, hd, rfl⟩ := List.mem_map.mp hpart
    cases wide with
    | true => exact Bytes.isText_encodeChar _
    | false =>
      refine Bytes.isText_of_ascii fun b hb => ?_
      rw [List.mem_singleton.mp hb]
      exact (Decimal.digitByte_facts d (hpadded d hd)).1

end NovelScript
