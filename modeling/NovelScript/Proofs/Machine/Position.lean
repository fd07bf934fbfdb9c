import Mathlib.Algebra.Group.Nat.Defs
import NovelScript.Machine.Snapshot
import NovelScript.Proofs.Label

/-!
# Positions are found again

An address is saved as the label that it belongs to, a number of lines below that label and an
offset on the line. In the same script, the address that is found for a saved position is the one
that was saved.
-/

namespace NovelScript

namespace Script

private theorem newlinesBetween_le_size (s : Script) (start stop : Nat) :
    s.newlinesBetween start stop ≤ s.size := by
  have hcount : s.newlinesBetween start stop ≤ (s.slice start stop).length := List.count_le_length
  have hlength : (s.slice start stop).length ≤ s.size := by
    simp only [slice, Array.length_toList, Array.size_extract, size]
    omega
  exact Nat.le_trans hcount hlength

end Script

/-- A count that fits is read back as it is. -/
theorem toNat_toInt_ofNat {n : Nat} (h : n < 2 ^ 31) : (Int32.ofNat n).toInt.toNat = n := by
  rw [Int32.toInt_ofNat_of_lt (by omega), Int.toNat_natCast]

namespace Machine

variable {s t : Machine}

/-- Two machines run the same script, and both have its labels. -/
structure SameScript (s t : Machine) : Prop where
  /-- The script is the same. -/
  script : t.script = s.script
  /-- The first machine has its labels. -/
  labels : s.labels = (LabelTable.build s.script).1
  /-- The second machine has its labels. -/
  labels' : t.labels = (LabelTable.build s.script).1

/-- The label of a saved position is found, and is a line start at or before the address. -/
theorem baseOf_positionOf (h : SameScript s t) (addr : Nat) :
    ∃ base, t.baseOf (s.positionOf addr) = .ok base ∧ s.script.IsLineStart base ∧ base ≤ addr ∧
      (s.positionOf addr).line =
        Int32.ofNat (s.script.newlinesBetween base (s.script.lineStart addr)) := by
  cases hlabel : s.labels.enclosing? addr with
  | none =>
    refine ⟨0, ?_, .inl rfl, Nat.zero_le _, ?_⟩
    · simp only [baseOf, positionOf, hlabel]
      rfl
    · simp only [positionOf, hlabel]
      rfl
  | some label =>
    obtain ⟨hmem, hle⟩ := LabelTable.mem_of_enclosing? hlabel
    rw [h.labels] at hmem
    have hstands := LabelTable.stands_of_mem_build hmem
    refine ⟨label.start, ?_, hstands.start, hle, ?_⟩
    · have hname : (s.positionOf addr).label = label.name := by simp only [positionOf, hlabel]; rfl
      rw [baseOf, hname, hstands.name, h.labels', LabelTable.byName_build hmem]
      rfl
    · simp only [positionOf, hlabel]
      rfl

/-- An address is found for a position that tells the newlines from a line start down to its line
and the distance from the start of that line. -/
theorem addressOf_eq_ok {position : SavedPosition} {base addr : Nat}
    (hsize : t.script.size < 2 ^ 31) (hbase : t.baseOf position = .ok base)
    (hstart : t.script.IsLineStart base) (hle : base ≤ addr) (haddr : addr ≤ t.script.size)
    (hline : position.line =
      Int32.ofNat (t.script.newlinesBetween base (t.script.lineStart addr)))
    (hoffset : position.offset = Int32.ofNat (addr - t.script.lineStart addr)) :
    t.addressOf position = .ok addr := by
  let lineStart := t.script.lineStart addr
  have hlineStart : lineStart ≤ addr := Script.lineStart_le _ _
  have hdown : t.script.linesDown position.line.toInt.toNat base = lineStart := by
    have hcount := t.script.newlinesBetween_le_size base (t.script.lineStart addr)
    rw [hline, toNat_toInt_ofNat (by omega)]
    exact Script.linesDown_newlinesBetween (hstart.le_lineStart hle haddr)
      (Script.isLineStart_lineStart _ _)
  have hback : (Int32.ofNat (addr - lineStart)).toInt.toNat = addr - lineStart :=
    toNat_toInt_ofNat (by omega)
  have hsign : ¬ Int32.ofNat (addr - lineStart) < 0 := by
    rw [Int32.lt_iff_toInt_lt, Int32.toInt_ofNat_of_lt (by omega)]
    exact Int.not_lt.mpr (Int.natCast_nonneg _)
  have hend : addr ≤ t.script.lineEnd lineStart :=
    Script.le_lineEnd_of_sameLine hlineStart haddr (Script.sameLine_lineStart haddr)
  have hfits : ¬ t.script.lineEnd lineStart - lineStart < addr - lineStart := by omega
  rw [addressOf, hbase]
  show (if position.offset < 0 then _ else _) = _
  rw [hdown, hoffset, if_neg hsign]
  show (if t.script.lineEnd lineStart - lineStart < (Int32.ofNat (addr - lineStart)).toInt.toNat
    then _ else t.script.address (lineStart + (Int32.ofNat (addr - lineStart)).toInt.toNat)) = _
  rw [hback, if_neg hfits, Nat.add_sub_cancel' hlineStart, Script.address, if_pos haddr]

/-- **The address of a saved position is the address that was saved.** -/
theorem addressOf_positionOf (h : SameScript s t) (hsize : s.script.size < 2 ^ 31) {addr : Nat}
    (haddr : addr ≤ s.script.size) : t.addressOf (s.positionOf addr) = .ok addr := by
  obtain ⟨base, hbase, hstart, hle, hline⟩ := baseOf_positionOf h addr
  rw [← h.script] at hsize hstart haddr hline
  apply addressOf_eq_ok hsize hbase hstart hle haddr hline
  rw [h.script]
  rfl

end Machine

end NovelScript
