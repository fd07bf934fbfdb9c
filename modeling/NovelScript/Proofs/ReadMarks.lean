import Mathlib.Data.Nat.Bitwise
import NovelScript.ReadMarks

/-!
# Laws of marks

Marking an address adds it to the marked ones and changes nothing else. Marks that cover a script
come back unchanged from the bytes that are stored of them.
-/

namespace NovelScript.ReadMarks

variable {marks : ReadMarks} {size addr other : Nat}

/-! ## Bits -/

/-- The byte of an address is the power of two of its place in the byte. -/
theorem toNat_bit (addr : Nat) : (bit addr).toNat = 2 ^ (addr % 8) := by
  have hall : ∀ i : Fin 8, (1 <<< UInt8.ofNat i.val : UInt8).toNat = 2 ^ i.val := by decide
  exact hall ⟨addr % 8, Nat.mod_lt _ (by omega)⟩

/-- A byte has the bit of an address exactly if its number has. -/
theorem and_bit_ne_zero_iff (byte : UInt8) (addr : Nat) :
    byte &&& bit addr ≠ 0 ↔ byte.toNat.testBit (addr % 8) = true := by
  have hnat : (byte &&& bit addr).toNat =
      (byte.toNat.testBit (addr % 8)).toNat * 2 ^ (addr % 8) := by
    rw [UInt8.toNat_and, toNat_bit, Nat.and_two_pow]
  rw [Ne, ← UInt8.toNat_inj, hnat]
  cases byte.toNat.testBit (addr % 8) <;> simp

/-- A byte to which the bit of an address was added has this bit and those it had. -/
theorem or_bit_and_bit_ne_zero_iff (byte : UInt8) (addr other : Nat) :
    (byte ||| bit addr) &&& bit other ≠ 0 ↔ other % 8 = addr % 8 ∨ byte &&& bit other ≠ 0 := by
  rw [and_bit_ne_zero_iff, and_bit_ne_zero_iff, UInt8.toNat_or, toNat_bit, Nat.testBit_or,
    Bool.or_eq_true, Nat.testBit_two_pow, decide_eq_true_eq]
  constructor
  · rintro (hbyte | hplace)
    · exact .inr hbyte
    · exact .inl hplace.symm
  · rintro (hplace | hbyte)
    · exact .inr hplace.symm
    · exact .inl hbyte

/-! ## Marks -/

/-- The marks are for a script of a given size: every address has a bit. -/
structure Covers (marks : ReadMarks) (size : Nat) : Prop where
  /-- There is a bit for every address, the end included. -/
  count : marks.count = size + 1
  /-- There are bytes for all bits. -/
  bytes : marks.bytes.size = byteCount (size + 1)

private theorem covers_ofBytes (bytes : Bytes) (size : Nat) : (ofBytes bytes size).Covers size := by
  refine ⟨rfl, ?_⟩
  simp only [ofBytes, List.size_toArray, List.length_append, List.length_take,
    List.length_replicate]
  omega

private theorem Covers.mark (h : marks.Covers size) (addr : Nat) :
    (marks.mark addr).Covers size := by
  unfold ReadMarks.mark
  split
  · exact ⟨h.count, by simp [h.bytes]⟩
  · exact h

/-- Nothing is marked at first. -/
theorem isMarked_none (size addr : Nat) : (none size).isMarked addr = false := by
  have hbytes : (none size).bytes.getD (addr / 8) 0 = 0 := by
    simp only [none, ofBytes, Array.getD_eq_getD_getElem?, List.take_nil, List.nil_append,
      List.getElem?_toArray, List.getElem?_replicate]
    split <;> rfl
  rw [isMarked, hbytes]
  simp

/-- **Marking an address adds it to the marked ones.** -/
theorem isMarked_mark_iff (h : marks.Covers size) (haddr : addr ≤ size) :
    (marks.mark addr).isMarked other = true ↔ other = addr ∨ marks.isMarked other = true := by
  have hlt : addr < marks.count := by
    have := h.count
    omega
  have hindex : addr / 8 < marks.bytes.size := by
    rw [h.bytes, byteCount]
    omega
  rw [mark, if_pos hlt, isMarked, isMarked]
  simp only [Bool.and_eq_true, decide_eq_true_eq, bne_iff_ne]
  by_cases hbyte : other / 8 = addr / 8
  · -- Both addresses have their bits in one byte.
    have hget : (marks.bytes.modify (addr / 8) (· ||| bit addr)).getD (other / 8) 0 =
        marks.bytes.getD (other / 8) 0 ||| bit addr := by
      rw [hbyte]
      simp [Array.getD_eq_getD_getElem?, hindex, Array.getElem_modify_self]
    rw [hget, or_bit_and_bit_ne_zero_iff]
    constructor
    · rintro ⟨hcount, hplace | hmarked⟩
      · left
        omega
      · exact .inr ⟨hcount, hmarked⟩
    · rintro (rfl | ⟨hcount, hmarked⟩)
      · exact ⟨hlt, .inl rfl⟩
      · exact ⟨hcount, .inr hmarked⟩
  · have hget : (marks.bytes.modify (addr / 8) (· ||| bit addr)).getD (other / 8) 0 =
        marks.bytes.getD (other / 8) 0 := by
      simp [Array.getD_eq_getD_getElem?, Array.getElem?_modify, Ne.symm hbyte]
    have hne : other ≠ addr := fun heq => hbyte (by rw [heq])
    rw [hget]
    simp [hne]

/-- Marks come back from their bytes. -/
theorem ofBytes_toBytes (h : marks.Covers size) : ofBytes marks.toBytes size = marks := by
  obtain ⟨bytes, count⟩ := marks
  obtain ⟨rfl, hbytes⟩ := h
  have hlength : bytes.toList.length = byteCount (size + 1) := hbytes
  simp only [ofBytes, toBytes, ← hlength, List.take_length, Nat.sub_self, List.replicate_zero,
    List.append_nil, Array.toArray_toList]

/-! ## Marks of a history -/

/-- The marks are for a script of a given size, and these addresses were visited. -/
structure Represents (marks : ReadMarks) (size : Nat) (visited : List Nat) : Prop
    extends Covers marks size where
  /-- Marked is what was visited. -/
  marked : ∀ addr, marks.isMarked addr = true ↔ addr ∈ visited

variable {visited : List Nat}

/-- No marks represent that nothing was visited. -/
theorem represents_none (size : Nat) : (none size).Represents size [] where
  toCovers := covers_ofBytes [] size
  marked addr := by simp [isMarked_none]

/-- One more address is visited. -/
theorem Represents.mark (h : marks.Represents size visited) (haddr : addr ≤ size) :
    (marks.mark addr).Represents size (addr :: visited) where
  toCovers := h.toCovers.mark addr
  marked other := by rw [isMarked_mark_iff h.toCovers haddr, h.marked, List.mem_cons]

/-- Nothing is lost between sessions. -/
theorem Represents.stored (h : marks.Represents size visited) :
    (ofBytes marks.toBytes size).Represents size visited := by
  rwa [ofBytes_toBytes h.toCovers]

end NovelScript.ReadMarks
