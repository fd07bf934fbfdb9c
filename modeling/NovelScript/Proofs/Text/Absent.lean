import NovelScript.Proofs.Text.Utf8

/-!
# Bytes that a text does not have

A byte that only continues characters is not brought in by decoding: if malformed bytes do not have
it, and U+FFFD does not have it either, then the text that they decode to does not have it. Each
unfinished character carries the six-bit groups that were read, and none of them is that of the
byte. Changing the case of ASCII letters does not bring in such a byte, nor take it away.
-/

namespace NovelScript.Text.Utf8

variable {k : Nat}

/-- A byte that continues characters, told by its six bits. -/
def continuation (k : Nat) : UInt8 :=
  UInt8.ofNat (k + 0x80)

/-- The six bits of a byte tell it from other bytes that continue characters. -/
theorem continuation_inj {j : Nat} (hj : j < 64) (hk : k < 64)
    (h : continuation k = UInt8.ofNat (j + 0x80)) : j = k := by
  have hmod : (k + 0x80) % 256 = (j + 0x80) % 256 := by
    simpa [continuation] using congrArg UInt8.toNat h
  omega

/-- No other byte continues characters. -/
theorem continuation_ne {n : Nat} (hk : k < 64) (hn : n < 0x80 ∨ 0xc0 ≤ n) (hlt : n < 256) :
    continuation k ≠ UInt8.ofNat n := by
  intro h
  have hmod : (k + 0x80) % 256 = n % 256 := by
    simpa [continuation] using congrArg UInt8.toNat h
  omega

/-- The code point is written without a group of six bits. -/
def Lacks (k v : Nat) : Prop :=
  (v < 0x80 ∨ v % 64 ≠ k) ∧ (v < 0x800 ∨ v / 64 % 64 ≠ k) ∧ (v < 0x10000 ∨ v / 4096 % 64 ≠ k)

/-- A character whose code point lacks a group of six bits is written without it. -/
theorem continuation_notMem_encodeChar (hk : k < 64) {c : Char} (h : Lacks k c.val.toNat) :
    continuation k ∉ String.utf8EncodeChar c := by
  obtain ⟨hlast, hmiddle, hfirst⟩ := h
  have hgroup : ∀ n, n % 64 ≠ k → continuation k ≠ UInt8.ofNat (n % 64 + 0x80) := by
    intro n hne heq
    exact hne (continuation_inj (Nat.mod_lt n (by omega)) hk heq)
  simp only [String.utf8EncodeChar]
  generalize c.val.toNat = v at hlast hmiddle hfirst
  split_ifs with h1 h2 h3
  all_goals simp only [List.mem_cons, List.not_mem_nil, or_false, not_or]
  · exact continuation_ne hk (.inl (by omega)) (by omega)
  · exact ⟨continuation_ne hk (.inr (by omega)) (by omega), hgroup _ (by omega)⟩
  · exact ⟨continuation_ne hk (.inr (by omega)) (by omega), hgroup _ (by omega),
      hgroup _ (by omega)⟩
  · exact ⟨continuation_ne hk (.inr (by omega)) (by omega), hgroup _ (by omega),
      hgroup _ (by omega), hgroup _ (by omega)⟩

/-- A character that is made from a number is the one with that code point, or zero. -/
theorem toNat_val_ofNat (n : Nat) :
    (Char.ofNat n).val.toNat = n ∨ (Char.ofNat n).val.toNat = 0 := by
  by_cases hn : n.isValidChar
  · left
    rw [Char.ofNat, dif_pos hn]
    rfl
  · right
    rw [Char.ofNat, dif_neg hn]
    rfl

private theorem continuation_notMem_ofNat (hk : k < 64) {n : Nat} (h : Lacks k n) :
    continuation k ∉ String.utf8EncodeChar (Char.ofNat n) := by
  apply continuation_notMem_encodeChar hk
  rcases toNat_val_ofNat n with hn | hn
  · rwa [hn]
  · rw [hn]
    refine ⟨?_, ?_, ?_⟩ <;> omega

namespace Pending

/-- None of the groups of six bits that were read is the given one. -/
structure Avoids (k : Nat) (p : Pending) : Prop where
  /-- The next byte continues the character. -/
  low : 0x80 ≤ p.low.toNat
  /-- So does any other that it can be. -/
  high : p.high.toNat ≤ 0xbf
  /-- Something is missing. -/
  missing : 0 < p.missing
  /-- Before the last byte, the groups above it are others, as far as there are any. -/
  last : p.missing = 1 →
    (p.code < 32 ∨ p.code % 64 ≠ k) ∧ (p.code < 1024 ∨ p.code / 64 % 64 ≠ k)
  /-- Before the last byte but one, so is the group above it. -/
  middle : p.missing = 2 → p.code < 16 ∨ p.code % 64 ≠ k

end Pending

private theorem lead_avoids (hk : k < 64)
    (hrep : continuation k ∉ String.utf8EncodeChar replacement) (b : UInt8) :
    (∀ c ∈ (lead b).1, continuation k ∉ String.utf8EncodeChar c) ∧
      ∀ p ∈ (lead b).2, p.Avoids k := by
  have hlt : b.toNat < 256 := b.toNat_lt
  simp only [lead, Bool.and_eq_true, decide_eq_true_eq, UInt8.le_iff_toNat_le,
    UInt8.lt_iff_toNat_lt, ← UInt8.toNat_inj, UInt8.reduceToNat]
  split_ifs with hascii htwo hthree hfour
  all_goals
    simp only [List.mem_singleton, forall_eq, List.not_mem_nil, Option.mem_def, reduceCtorEq,
      Option.some.injEq, forall_eq', IsEmpty.forall_iff, implies_true, and_true, true_and]
  · apply continuation_notMem_ofNat hk
    refine ⟨?_, ?_, ?_⟩ <;> omega
  -- The last case is a byte that starts no character; those before it leave a beginning.
  pick_goal -1
  · exact hrep
  all_goals
    constructor <;> simp only [UInt8.reduceToNat] <;> omega

/-- One byte other than the given one: what comes out does not have it, and what is left to be
finished avoids it. -/
theorem feed_avoids (hk : k < 64) (hrep : continuation k ∉ String.utf8EncodeChar replacement)
    {pending : Option Pending} (hp : ∀ p ∈ pending, p.Avoids k) {b : UInt8}
    (hb : b ≠ continuation k) :
    (∀ c ∈ (feed pending b).1, continuation k ∉ String.utf8EncodeChar c) ∧
      ∀ p ∈ (feed pending b).2, p.Avoids k := by
  obtain ⟨hout, hnext⟩ := lead_avoids hk hrep b
  cases pending with
  | none => exact ⟨hout, hnext⟩
  | some p =>
    obtain ⟨hlow, hhigh, hmissing, hlast, hmiddle⟩ := hp p rfl
    have hfits_iff : (p.low ≤ b && b ≤ p.high) = true ↔
        p.low.toNat ≤ b.toNat ∧ b.toNat ≤ p.high.toNat := by
      rw [Bool.and_eq_true, decide_eq_true_eq, decide_eq_true_eq, UInt8.le_iff_toNat_le,
        UInt8.le_iff_toNat_le]
    have hbits : p.low.toNat ≤ b.toNat ∧ b.toNat ≤ p.high.toNat → b.toNat - 0x80 ≠ k := by
      intro hfits heq
      apply hb
      rw [← UInt8.toNat_inj, continuation, UInt8.toNat_ofNat']
      omega
    rw [feed]
    simp only [hfits_iff]
    split_ifs with hfits hone
    · have hother := hbits hfits
      refine ⟨?_, fun _ hq => absurd hq (Option.not_mem_none _)⟩
      obtain ⟨habove, hfirst⟩ := hlast (by omega)
      simp only [List.mem_singleton, forall_eq]
      apply continuation_notMem_ofNat hk
      refine ⟨?_, ?_, ?_⟩ <;> omega
    · have hother := hbits hfits
      refine ⟨fun _ hc => absurd hc List.not_mem_nil, ?_⟩
      rintro _ ⟨⟩
      constructor <;> simp only [UInt8.reduceToNat] <;> omega
    · refine ⟨?_, hnext⟩
      intro c hc
      rcases List.mem_cons.mp hc with rfl | hc
      · exact hrep
      · exact hout c hc

/-- Decoding bytes that do not have the given one, after a beginning that avoids it. -/
theorem continuation_notMem_decodeAfter (hk : k < 64)
    (hrep : continuation k ∉ String.utf8EncodeChar replacement) {pending : Option Pending}
    (hp : ∀ p ∈ pending, p.Avoids k) {bytes : Bytes} (h : continuation k ∉ bytes) :
    ∀ c ∈ decodeAfter pending bytes, continuation k ∉ String.utf8EncodeChar c := by
  induction bytes generalizing pending with
  | nil =>
    cases pending with
    | none => exact fun _ hc => absurd hc List.not_mem_nil
    | some p =>
      intro c hc
      rw [List.mem_singleton.mp hc]
      exact hrep
  | cons b rest ih =>
    rw [List.mem_cons, not_or] at h
    obtain ⟨hout, hnext⟩ := feed_avoids hk hrep hp (Ne.symm h.1)
    intro c hc
    rw [decodeAfter, List.mem_append] at hc
    rcases hc with hc | hc
    · exact hout c hc
    · exact ih hnext h.2 c hc

/-- Bytes that do not have the given one decode to a text that does not have it. -/
theorem continuation_notMem_ofText_decode (hk : k < 64)
    (hrep : continuation k ∉ String.utf8EncodeChar replacement) {bytes : Bytes}
    (h : continuation k ∉ bytes) :
    continuation k ∉ Bytes.ofText (String.ofList (decode bytes)) := by
  rw [Bytes.ofText, String.toList_ofList, List.mem_flatMap]
  rintro ⟨c, hc, hmem⟩
  exact continuation_notMem_decodeAfter hk hrep (fun _ hp => absurd hp (Option.not_mem_none _)) h
    c hc hmem

/-! ## Case -/

/-- The lower case of an ASCII capital comes 32 places after it, and other characters are their own
lower case. -/
theorem toLower_cases (c : Char) :
    c.toLower = c ∨ (0x41 ≤ c.val.toNat ∧ c.val.toNat ≤ 0x5a) ∧
      c.toLower.val.toNat = c.val.toNat + 0x20 := by
  by_cases h : c.val ≥ 'A'.val ∧ c.val ≤ 'Z'.val
  · right
    have hlow : 0x41 ≤ c.val.toNat := UInt32.le_iff_toNat_le.mp h.1
    have hhigh : c.val.toNat ≤ 0x5a := UInt32.le_iff_toNat_le.mp h.2
    have hval : c.toLower.val = c.val + 0x20 := congrArg Char.val (dif_pos h)
    refine ⟨⟨hlow, hhigh⟩, ?_⟩
    have hstep : (0x20 : UInt32).toNat = 0x20 := rfl
    rw [hval, UInt32.toNat_add, hstep]
    omega
  · exact .inl (dif_neg h)

/-- What is in lower case stays as it is. -/
theorem toLower_toLower (c : Char) : c.toLower.toLower = c.toLower := by
  rcases toLower_cases c with h | ⟨hc, hlower⟩
  · rw [h, h]
  · rcases toLower_cases c.toLower with h | ⟨hc', -⟩
    · exact h
    · omega

private theorem continuation_mem_encodeChar_toLower (hk : k < 64) (c : Char) :
    continuation k ∈ String.utf8EncodeChar c.toLower ↔
      continuation k ∈ String.utf8EncodeChar c := by
  rcases toLower_cases c with h | ⟨hc, hlower⟩
  · rw [h]
  · have hascii : ∀ d : Char, d.val.toNat < 0x80 → continuation k ∉ String.utf8EncodeChar d := by
      intro d hd
      apply continuation_notMem_encodeChar hk
      refine ⟨?_, ?_, ?_⟩ <;> omega
    exact iff_of_false (hascii _ (by omega)) (hascii c (by omega))

/-- A text is put in lower case character by character. -/
theorem toList_toLower (text : String) : text.toLower.toList = text.toList.map Char.toLower :=
  String.toList_map

/-- Putting a text in lower case neither brings in nor takes away a byte that continues
characters. -/
theorem continuation_mem_ofText_toLower (hk : k < 64) (text : String) :
    continuation k ∈ Bytes.ofText text.toLower ↔ continuation k ∈ Bytes.ofText text := by
  simp only [Bytes.ofText, toList_toLower, List.flatMap_map, List.mem_flatMap,
    continuation_mem_encodeChar_toLower hk]

/-- What is in lower case stays as it is when it is put in lower case. -/
theorem toLower_toLower_text (text : String) : text.toLower.toLower = text.toLower := by
  apply String.toList_inj.mp
  rw [toList_toLower, toList_toLower, List.map_map]
  exact List.map_congr_left fun c _ => toLower_toLower c

end NovelScript.Text.Utf8
