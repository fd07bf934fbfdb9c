import Mathlib.Data.List.Basic
import Mathlib.Tactic.Ring
import NovelScript.Text.Utf8

/-!
# UTF-8 and back

Decoding undoes encoding, and neither direction brings in or loses a zero byte: the zero character
is the only one whose encoding has a zero byte, and bytes without a zero never decode to it. The
second half rests on a range that an unfinished character carries: every way of finishing it gives
a scalar value of that range, and the range does not contain zero.
-/

namespace NovelScript

/-- All bytes are characters of their own. -/
def Bytes.IsAscii (bytes : Bytes) : Prop :=
  ∀ b ∈ bytes, b < 0x80

-- The bytes of the list are looked at, not all 256 of the type.
instance (bytes : Bytes) : Decidable bytes.IsAscii :=
  List.decidableBAll (· < 0x80) bytes

namespace Text.Utf8

/-! ## Decoding what was encoded -/

/-- A byte below 128 is a character of its own. -/
theorem lead_ascii {n : Nat} (hn : n < 0x80) :
    lead (UInt8.ofNat n) = ([Char.ofNat n], none) := by
  have hlt : UInt8.ofNat n < 0x80 := by
    rw [UInt8.lt_iff_toNat_lt, UInt8.toNat_ofNat']
    exact lt_of_le_of_lt (Nat.mod_le _ _) hn
  have hval : (UInt8.ofNat n).toNat = n := by
    rw [UInt8.toNat_ofNat']
    omega
  rw [lead, if_pos hlt, hval]

/-- The first byte of a character of two bytes. -/
theorem lead_two : ∀ k < 32, 2 ≤ k →
    lead (UInt8.ofNat (k + 0xc0)) = ([], some ⟨1, 0x80, 0xbf, k⟩) := by
  decide

/-- The first byte of a character of three bytes. -/
theorem lead_three : ∀ k < 16,
    lead (UInt8.ofNat (k + 0xe0)) = ([], some
      ⟨2, if k = 0 then 0xa0 else 0x80, if k = 13 then 0x9f else 0xbf, k⟩) := by
  decide

/-- The first byte of a character of four bytes. -/
theorem lead_four : ∀ k < 5,
    lead (UInt8.ofNat (k + 0xf0)) = ([], some
      ⟨3, if k = 0 then 0x90 else 0x80, if k = 4 then 0x8f else 0xbf, k⟩) := by
  decide

/-- A continuation byte within the bounds adds six bits. -/
theorem feed_some {p : Pending} {k : Nat} (hk : k < 64)
    (hlow : p.low.toNat ≤ k + 0x80) (hhigh : k + 0x80 ≤ p.high.toNat) :
    feed (some p) (UInt8.ofNat (k + 0x80)) =
      if p.missing ≤ 1 then ([Char.ofNat (p.code * 64 + k)], none)
      else ([], some ⟨p.missing - 1, 0x80, 0xbf, p.code * 64 + k⟩) := by
  have hval : (UInt8.ofNat (k + 0x80)).toNat = k + 0x80 := by
    rw [UInt8.toNat_ofNat']
    omega
  have hfits : (p.low ≤ UInt8.ofNat (k + 0x80) && UInt8.ofNat (k + 0x80) ≤ p.high) = true := by
    simp only [Bool.and_eq_true, decide_eq_true_eq, UInt8.le_iff_toNat_le, hval]
    exact ⟨hlow, hhigh⟩
  rw [feed, if_pos hfits, hval, Nat.add_sub_cancel]

/-- A first byte that does not stand alone is kept. -/
theorem decodeAfter_lead {b : UInt8} {p : Pending} (h : lead b = ([], some p)) (rest : Bytes) :
    decodeAfter none (b :: rest) = decodeAfter (some p) rest := by
  rw [decodeAfter, feed, h]
  rfl

/-- A continuation byte that is not the last one is kept. -/
theorem decodeAfter_more {missing code k : Nat} {low high : UInt8} (hk : k < 64)
    (hlow : low.toNat ≤ k + 0x80) (hhigh : k + 0x80 ≤ high.toNat) (rest : Bytes) :
    decodeAfter (some ⟨missing + 2, low, high, code⟩) (UInt8.ofNat (k + 0x80) :: rest) =
      decodeAfter (some ⟨missing + 1, 0x80, 0xbf, code * 64 + k⟩) rest := by
  rw [decodeAfter, feed_some hk hlow hhigh, if_neg (by simp)]
  rfl

/-- The last continuation byte completes its character. -/
theorem decodeAfter_last {code k : Nat} {low high : UInt8} (hk : k < 64)
    (hlow : low.toNat ≤ k + 0x80) (hhigh : k + 0x80 ≤ high.toNat) (rest : Bytes) :
    decodeAfter (some ⟨1, low, high, code⟩) (UInt8.ofNat (k + 0x80) :: rest) =
      Char.ofNat (code * 64 + k) :: decodeAfter none rest := by
  rw [decodeAfter, feed_some hk hlow hhigh, if_pos (Nat.le_refl 1)]
  rfl

/-- Decoding takes an encoded character off the front. -/
theorem decodeAfter_encodeChar (c : Char) (rest : Bytes) :
    decodeAfter none (String.utf8EncodeChar c ++ rest) = c :: decodeAfter none rest := by
  have hvalid : c.val.toNat < 0xd800 ∨ 0xdfff < c.val.toNat ∧ c.val.toNat < 0x110000 := c.valid
  have hc : Char.ofNat c.val.toNat = c := Char.ofNat_toNat c
  generalize hv : c.val.toNat = v at hvalid hc
  have hsix : ∀ n, n % 64 < 64 := fun n => Nat.mod_lt n (by omega)
  have hlow : ∀ k, (0x80 : UInt8).toNat ≤ k + 0x80 := fun k => Nat.le_add_left 0x80 k
  have hhigh : ∀ n, n % 64 + 0x80 ≤ (0xbf : UInt8).toNat := fun n =>
    Nat.add_le_add_right (Nat.le_of_lt_succ (hsix n)) 0x80
  simp only [String.utf8EncodeChar, hv]
  split_ifs with h1 h2 h3
  · rw [List.singleton_append, decodeAfter, feed, lead_ascii (by omega), hc]
    rfl
  · have hbits : v / 64 * 64 + v % 64 = v := by omega
    rw [Nat.mod_eq_of_lt (show v / 64 < 32 by omega), List.cons_append,
      decodeAfter_lead (lead_two _ (by omega) (by omega)), List.singleton_append,
      decodeAfter_last (hsix v) (hlow _) (hhigh v), hbits, hc]
  · have hbits : (v / 4096 * 64 + v / 64 % 64) * 64 + v % 64 = v := by omega
    rw [Nat.mod_eq_of_lt (show v / 4096 < 16 by omega), List.cons_append,
      decodeAfter_lead (lead_three _ (by omega)), List.cons_append,
      decodeAfter_more (hsix _) (by split <;> simp; omega) (by split <;> simp <;> omega),
      List.singleton_append, decodeAfter_last (hsix v) (hlow _) (hhigh v), hbits, hc]
  · have hbits : ((v / 262144 * 64 + v / 4096 % 64) * 64 + v / 64 % 64) * 64 + v % 64 = v := by
      omega
    rw [Nat.mod_eq_of_lt (show v / 262144 < 8 by omega), List.cons_append,
      decodeAfter_lead (lead_four _ (by omega)), List.cons_append,
      decodeAfter_more (hsix _) (by split <;> simp; omega) (by split <;> simp <;> omega),
      List.cons_append, decodeAfter_more (hsix _) (hlow _) (hhigh _),
      List.singleton_append, decodeAfter_last (hsix v) (hlow _) (hhigh v), hbits, hc]

/-- Decoding undoes encoding. -/
theorem decode_ofText (text : String) : decode (Bytes.ofText text) = text.toList := by
  rw [decode, Bytes.ofText]
  induction text.toList with
  | nil => rfl
  | cons c chars ih => rw [List.flatMap_cons, decodeAfter_encodeChar, ih]

/-! ## Zero bytes -/

/-- Only the zero character has a zero byte in its encoding. -/
theorem zero_notMem_encodeChar {c : Char} (hc : c ≠ '\x00') : 0 ∉ String.utf8EncodeChar c := by
  have hpos : c.val.toNat ≠ 0 := by
    intro h
    apply hc
    rw [← Char.ofNat_toNat c]
    exact congrArg Char.ofNat h
  have hbyte : ∀ n, n < 256 → n ≠ 0 → (0 : UInt8) ≠ UInt8.ofNat n := by
    intro n hn hne h
    have hmod : 0 = n % 256 := by
      simpa using congrArg UInt8.toNat h
    omega
  simp only [String.utf8EncodeChar]
  generalize c.val.toNat = v at hpos
  split_ifs <;> simp only [List.mem_cons, List.not_mem_nil, or_false, not_or]
  · exact hbyte _ (by omega) (by omega)
  · exact ⟨hbyte _ (by omega) (by omega), hbyte _ (by omega) (by omega)⟩
  · exact ⟨hbyte _ (by omega) (by omega), hbyte _ (by omega) (by omega),
      hbyte _ (by omega) (by omega)⟩
  · exact ⟨hbyte _ (by omega) (by omega), hbyte _ (by omega) (by omega),
      hbyte _ (by omega) (by omega), hbyte _ (by omega) (by omega)⟩

/-- A text without the zero character is encoded without a zero byte. -/
theorem zero_notMem_ofText {text : String} (h : '\x00' ∉ text.toList) :
    0 ∉ Bytes.ofText text := by
  rw [Bytes.ofText, List.mem_flatMap]
  rintro ⟨c, hmem, hzero⟩
  refine zero_notMem_encodeChar ?_ hzero
  rintro rfl
  exact h hmem

/-- The numbers of an interval are scalar values other than zero. -/
def Scalars (least greatest : Nat) : Prop :=
  0 < least ∧ (greatest < 0xd800 ∨ 0xdfff < least ∧ greatest < 0x110000)

/-- A number of such an interval is no zero character. -/
theorem Scalars.ofNat_ne {least greatest n : Nat} (h : Scalars least greatest)
    (hleast : least ≤ n) (hgreatest : n ≤ greatest) : Char.ofNat n ≠ '\x00' := by
  obtain ⟨hpos, hrange⟩ := h
  have hvalid : n.isValidChar := by
    rcases hrange with hr | ⟨hl, hg⟩
    · exact .inl (by omega)
    · exact .inr ⟨by omega, by omega⟩
  intro hzero
  have hn : (Char.ofNat n).toNat = n := by
    rw [Char.ofNat, dif_pos hvalid]
    rfl
  rw [hzero] at hn
  have hn0 : 0 = n := hn
  omega

namespace Pending

/-- The least code point that an unfinished character can become. -/
def least (p : Pending) : Nat :=
  (p.code * 64 + (p.low.toNat - 0x80)) * 64 ^ (p.missing - 1)

/-- One more than the greatest code point that an unfinished character can become. -/
def beyond (p : Pending) : Nat :=
  (p.code * 64 + (p.high.toNat - 0x80) + 1) * 64 ^ (p.missing - 1)

/-- However it goes on, an unfinished character becomes a scalar value other than zero. -/
def Sound (p : Pending) : Prop :=
  0 < p.missing ∧ Scalars p.least (p.beyond - 1)

/-- A fitting byte that completes a character gives a code point of its range. -/
theorem Sound.complete {p : Pending} (hp : p.Sound) (hone : p.missing ≤ 1) {k : Nat}
    (hlow : p.low.toNat - 0x80 ≤ k) (hhigh : k ≤ p.high.toNat - 0x80) :
    Char.ofNat (p.code * 64 + k) ≠ '\x00' := by
  obtain ⟨hpos, hscalars⟩ := hp
  have hmissing : p.missing = 1 := by omega
  apply hscalars.ofNat_ne
  · rw [least, hmissing]
    omega
  · rw [beyond, hmissing]
    omega

/-- A fitting byte that does not complete a character leaves a narrower range. -/
theorem Sound.shift {p : Pending} (hp : p.Sound) (hmore : 1 < p.missing) {k : Nat}
    (hlow : p.low.toNat - 0x80 ≤ k) (hhigh : k ≤ p.high.toNat - 0x80) :
    Sound ⟨p.missing - 1, 0x80, 0xbf, p.code * 64 + k⟩ := by
  obtain ⟨hpos, hscalars⟩ := hp
  obtain ⟨m, hm⟩ : ∃ m, p.missing = m + 2 := ⟨p.missing - 2, by omega⟩
  have hleast : p.least ≤ (p.code * 64 + k) * 64 * 64 ^ m := by
    rw [least, hm, show m + 2 - 1 = m + 1 by omega, pow_succ]
    calc (p.code * 64 + (p.low.toNat - 0x80)) * (64 ^ m * 64)
        ≤ (p.code * 64 + k) * (64 ^ m * 64) := Nat.mul_le_mul_right _ (by omega)
      _ = (p.code * 64 + k) * 64 * 64 ^ m := by ring
  have hbeyond : ((p.code * 64 + k) * 64 + 64) * 64 ^ m ≤ p.beyond := by
    rw [beyond, hm, show m + 2 - 1 = m + 1 by omega, pow_succ]
    calc ((p.code * 64 + k) * 64 + 64) * 64 ^ m
        = (p.code * 64 + k + 1) * (64 ^ m * 64) := by ring
      _ ≤ (p.code * 64 + (p.high.toNat - 0x80) + 1) * (64 ^ m * 64) :=
        Nat.mul_le_mul_right _ (by omega)
  have hnext : (⟨m + 1, 0x80, 0xbf, p.code * 64 + k⟩ : Pending).least =
      (p.code * 64 + k) * 64 * 64 ^ m := by
    simp only [least, Nat.add_sub_cancel, UInt8.reduceToNat, Nat.sub_self, Nat.add_zero]
  have hlast : (⟨m + 1, 0x80, 0xbf, p.code * 64 + k⟩ : Pending).beyond =
      ((p.code * 64 + k) * 64 + 64) * 64 ^ m := by
    simp only [beyond, Nat.add_sub_cancel, UInt8.reduceToNat]
  rw [hm, show m + 2 - 1 = m + 1 by omega]
  refine ⟨Nat.succ_pos m, ?_⟩
  rw [hnext, hlast]
  obtain ⟨hzero, hrange⟩ := hscalars
  refine ⟨by omega, ?_⟩
  omega

end Pending

/-- A first byte other than zero gives no zero character and leaves a sound beginning. -/
theorem lead_sound {b : UInt8} (hb : b ≠ 0) :
    '\x00' ∉ (lead b).1 ∧ ∀ p ∈ (lead b).2, p.Sound := by
  have hpos : 0 < b.toNat := by
    have hne : b.toNat ≠ 0 := fun h => hb (UInt8.toNat_inj.mp h)
    omega
  have hlt : b.toNat < 256 := b.toNat_lt
  simp only [lead, Bool.and_eq_true, decide_eq_true_eq, UInt8.le_iff_toNat_le,
    UInt8.lt_iff_toNat_lt, ← UInt8.toNat_inj, UInt8.reduceToNat]
  split_ifs with hascii htwo hthree hfour
  all_goals
    simp only [List.mem_singleton, List.not_mem_nil, Option.mem_def, reduceCtorEq,
      not_false_eq_true, Option.some.injEq, forall_eq', IsEmpty.forall_iff, implies_true,
      and_true, true_and]
  · have hscalars : Scalars b.toNat b.toNat := ⟨hpos, .inl (by omega)⟩
    exact (hscalars.ofNat_ne (Nat.le_refl _) (Nat.le_refl _)).symm
  -- The last case is a byte that starts no character; those before it leave a beginning.
  pick_goal -1
  · decide
  all_goals
    refine ⟨Nat.succ_pos _, ?_, ?_⟩ <;>
      simp only [Pending.least, Pending.beyond, UInt8.reduceToNat, Nat.reduceSub, Nat.reducePow]
        <;> omega

/-- A byte other than zero after a sound beginning gives no zero character and leaves a sound
beginning. -/
theorem feed_sound {pending : Option Pending} (hp : ∀ p ∈ pending, p.Sound) {b : UInt8}
    (hb : b ≠ 0) :
    '\x00' ∉ (feed pending b).1 ∧ ∀ p ∈ (feed pending b).2, p.Sound := by
  obtain ⟨hout, hnext⟩ := lead_sound hb
  cases pending with
  | none => exact ⟨hout, hnext⟩
  | some p =>
    have hsound := hp p rfl
    rw [feed]
    have hfits_iff : (p.low ≤ b && b ≤ p.high) = true ↔
        p.low.toNat ≤ b.toNat ∧ b.toNat ≤ p.high.toNat := by
      rw [Bool.and_eq_true, decide_eq_true_eq, decide_eq_true_eq, UInt8.le_iff_toNat_le,
        UInt8.le_iff_toNat_le]
    simp only [hfits_iff]
    split_ifs with hfits hone
    · refine ⟨?_, fun _ hq => absurd hq (Option.not_mem_none _)⟩
      rw [List.mem_singleton]
      exact (hsound.complete hone (by omega) (by omega)).symm
    · refine ⟨List.not_mem_nil, ?_⟩
      rintro _ ⟨⟩
      exact hsound.shift (by omega) (by omega) (by omega)
    · refine ⟨?_, hnext⟩
      rw [List.mem_cons, not_or]
      exact ⟨by decide, hout⟩

/-- Decoding bytes without a zero after a sound beginning gives no zero character. -/
theorem nul_notMem_decodeAfter {pending : Option Pending} (hp : ∀ p ∈ pending, p.Sound)
    {bytes : Bytes} (h : 0 ∉ bytes) : '\x00' ∉ decodeAfter pending bytes := by
  induction bytes generalizing pending with
  | nil =>
    cases pending with
    | none => exact List.not_mem_nil
    | some p => exact show '\x00' ∉ [replacement] by decide
  | cons b rest ih =>
    rw [List.mem_cons, not_or] at h
    obtain ⟨hout, hnext⟩ := feed_sound hp (Ne.symm h.1)
    rw [decodeAfter, List.mem_append, not_or]
    exact ⟨hout, ih hnext h.2⟩

/-- Bytes without a zero decode to a text without the zero character. -/
theorem nul_notMem_decode {bytes : Bytes} (h : 0 ∉ bytes) : '\x00' ∉ decode bytes :=
  nul_notMem_decodeAfter (fun _ hp => absurd hp (Option.not_mem_none _)) h

end Text.Utf8

end NovelScript
