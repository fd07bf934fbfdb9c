import NovelScript.Proofs.Machine.Places
import NovelScript.Proofs.Machine.Relocating
import NovelScript.Proofs.Save.Frames

/-!
# Saved positions that are gone

A position tells a label, a line below the label and an offset on that line. If the script has such
a line, the position is found again on it or, beyond its end, not at all. The line itself is not
checked against the label: counting goes on through the next label, up to the end of the script. So
a position whose line is gone leads to some other place if the line that is met there is long
enough.
-/

namespace NovelScript

namespace Script

open LabelTable

variable {script : Script} {start addr line line' : Nat} {name : String}

/-- A line starts at a place. -/
def HasLine (script : Script) (name : String) (line : Nat) : Prop :=
  ∃ start, script.IsLineStart start ∧ script.PlaceOf start name line

/-- No label begins between the start of a line and another address on it. -/
theorem IsLineStart.le_of_sameLine {base : Nat} (hbase : script.IsLineStart base)
    (hline : script.SameLine start addr) (hle : base ≤ addr) : base ≤ start := by
  by_contra hlt
  have hnewline := hbase.resolve_left (by omega)
  rw [hline (base - 1) (by omega) (by omega)] at hnewline
  cases hnewline

/-- All addresses on a line have the same place. -/
theorem PlaceOf.of_sameLine (h : script.PlaceOf start name line) (hle : start ≤ addr)
    (hline : script.SameLine start addr) : script.PlaceOf addr name line := by
  cases h with
  | @label label hmem hbelow hlast =>
    have hcount := script.newlinesBetween_add hbelow hle
    rw [newlinesBetween_of_sameLine hline, Nat.add_zero] at hcount
    rw [← hcount]
    exact .label hmem (Nat.le_trans hbelow hle) fun other hother hle' =>
      hlast other hother ((stands_of_mem_build hother).start.le_of_sameLine hline hle')
  | top habove =>
    have hcount := script.newlinesBetween_add (Nat.zero_le start) hle
    rw [newlinesBetween_of_sameLine hline, Nat.add_zero] at hcount
    rw [← hcount]
    refine .top fun label hmem => ?_
    by_contra hbelow
    have hle' := (stands_of_mem_build hmem).start.le_of_sameLine hline (Nat.not_lt.mp hbelow)
    have hlt := habove label hmem
    omega

/-- The lines from a label down to a line of its section are there. -/
theorem HasLine.of_le (h : script.HasLine name line') (hle : line ≤ line') :
    script.HasLine name line := by
  obtain ⟨start', hstart', hplace⟩ := h
  cases hplace with
  | @label label hmem hbelow hlast =>
    have hcount := script.newlinesBetween_eq_sub hbelow
    have hnumber : script.newlinesBetween 0 label.start + line ≤ script.newlinesBetween 0 start' := by
      have := newlinesBetween_mono script hbelow
      omega
    obtain ⟨start, hle', hstart, hline⟩ := exists_isLineStart hnumber
    have hbelow' : label.start ≤ start := by
      rw [(stands_of_mem_build hmem).start.le_iff, hline]
      exact Nat.le_add_right _ _
    have hplace := PlaceOf.label hmem hbelow' fun other hother hother' =>
      hlast other hother (Nat.le_trans hother' hle')
    rw [script.newlinesBetween_eq_sub hbelow', hline, Nat.add_sub_cancel_left] at hplace
    exact ⟨start, hstart, hplace⟩
  | top habove =>
    obtain ⟨start, hle', hstart, rfl⟩ := exists_isLineStart hle
    exact ⟨start, hstart, .top fun label hmem => Nat.lt_of_le_of_lt hle' (habove label hmem)⟩

end Script

namespace Machine

open LabelTable

variable {m : Machine} {position : SavedPosition} {start addr line : Nat} {name : String}

/-- The address of a line at a place is found by counting lines. -/
theorem linesDown_of_placeOf (hm : m.Indexed) (hstart : m.script.IsLineStart start)
    (hplace : m.script.PlaceOf start position.label line) :
    ∃ base, m.baseOf position = .ok base ∧ base ≤ m.script.size ∧
      m.script.linesDown line base = start := by
  generalize hname : position.label = name at hplace
  cases hplace with
  | @label label hmem hle =>
    refine ⟨label.start, ?_, Nat.le_trans hle hstart.le_size,
      Script.linesDown_newlinesBetween hle hstart⟩
    rw [baseOf, hname, (stands_of_mem_build hmem).name, hm, byName_build hmem]
    rfl
  | top =>
    refine ⟨0, ?_, Nat.zero_le _, Script.linesDown_newlinesBetween (Nat.zero_le _) hstart⟩
    rw [baseOf, hname]
    rfl

/-- The address that is found for a position goes by the length of the line that is met. -/
theorem addressOf_of_baseOf {base : Nat} (hbase : m.baseOf position = .ok base)
    (hsize : base ≤ m.script.size) (hoffset : 0 ≤ position.offset)
    (hstart : m.script.linesDown position.line.toInt.toNat base = start) :
    m.addressOf position =
      if start + position.offset.toInt.toNat ≤ m.script.lineEnd start then
        .ok (start + position.offset.toInt.toNat)
      else .error (.positionPastLine position.label position.line position.offset) := by
  have hstart' : start ≤ m.script.size := hstart ▸ Script.linesDown_le_size hsize
  have hend := Script.le_lineEnd hstart'
  have hend' := m.script.lineEnd_le_size start
  rw [addressOf, hbase]
  show (if position.offset < 0 then _ else _) = _
  rw [if_neg (Int32.not_lt.mpr hoffset), hstart]
  by_cases hfits : start + position.offset.toInt.toNat ≤ m.script.lineEnd start
  · rw [if_pos hfits]
    show (if _ < _ then _ else _) = _
    rw [if_neg (by omega), Script.address, if_pos (by omega)]
  · rw [if_neg hfits]
    show (if _ < _ then _ else _) = _
    rw [if_pos (by omega)]

/-- An address with a place has the position that tells the place. -/
theorem positionOf_of_placeOf (hm : m.Indexed) (haddr : addr ≤ m.script.size)
    (hplace : m.script.PlaceOf addr name line) :
    m.positionOf addr =
      ⟨name, Int32.ofNat line, Int32.ofNat (addr - m.script.lineStart addr)⟩ := by
  obtain ⟨line', hplace', hline⟩ := placeOf_positionOf hm haddr
  obtain ⟨rfl, rfl⟩ := hplace.unique hplace'
  rw [← hline]
  rfl

/-- A position on a line that exists is found there, or not at all. -/
theorem addressOf_of_hasLine (hm : m.Indexed) (hline : 0 ≤ position.line)
    (hoffset : 0 ≤ position.offset) (hstart : m.script.IsLineStart start)
    (hplace : m.script.PlaceOf start position.label position.line.toInt.toNat) :
    (start + position.offset.toInt.toNat ≤ m.script.lineEnd start →
      m.addressOf position = .ok (start + position.offset.toInt.toNat) ∧
        m.positionOf (start + position.offset.toInt.toNat) = position) ∧
    (m.script.lineEnd start < start + position.offset.toInt.toNat →
      m.addressOf position =
        .error (.positionPastLine position.label position.line position.offset)) := by
  obtain ⟨base, hbase, hsize, hdown⟩ := linesDown_of_placeOf hm hstart hplace
  have haddress := addressOf_of_baseOf hbase hsize hoffset hdown
  refine ⟨fun hfits => ⟨by rw [haddress, if_pos hfits], ?_⟩,
    fun hpast => by rw [haddress, if_neg (Nat.not_le.mpr hpast)]⟩
  have hsame : m.script.SameLine start (start + position.offset.toInt.toNat) :=
    fun k hle hlt => Script.sameLine_lineEnd hstart.le_size k hle (by omega)
  have haddr : start + position.offset.toInt.toNat ≤ m.script.size :=
    Nat.le_trans hfits (m.script.lineEnd_le_size start)
  rw [positionOf_of_placeOf hm haddr (hplace.of_sameLine (Nat.le_add_right _ _) hsame),
    hstart.lineStart_eq (Nat.le_add_right _ _) haddr hsame, Nat.add_sub_cancel_left,
    Int32.toNat_toInt, Int32.toNat_toInt, Int32.ofNat_toNatClampNeg _ hline,
    Int32.ofNat_toNatClampNeg _ hoffset]

/-- The line of an address that has a position exists. -/
theorem hasLine_of_positionOf (hm : m.Indexed) (haddr : addr ≤ m.script.size)
    (h : m.positionOf addr = position) :
    m.script.HasLine position.label position.line.toInt.toNat := by
  obtain ⟨line, hplace, hline⟩ := placeOf_positionOf hm haddr
  have hstart := m.script.isLineStart_lineStart addr
  have hplace' := Script.placeOf_enclosing? m.script (m.script.lineStart addr)
  obtain ⟨hname, hnumber⟩ := hplace.unique
    (hplace'.of_sameLine (m.script.lineStart_le addr) (Script.sameLine_lineStart haddr))
  rw [← hname, ← hnumber, h] at hplace'
  rw [h] at hline
  rw [hline]
  exact Script.HasLine.of_le ⟨_, hstart, hplace'⟩ (toNat_toInt_ofNat_le line)

/-- Lines are counted from the label with the name of the position, if there is one. -/
theorem baseOf_of_notMem (hm : m.Indexed) (hname : position.label.isEmpty = false)
    (hnone : ∀ label ∈ (build m.script).1.labels, label.name ≠ Label.key position.label.toList) :
    m.baseOf position = .error (.undefinedLabel (Label.key position.label.toList)) := by
  have hfind : m.labels.find? position.label = none := by
    rw [LabelTable.find?, List.find?_eq_none, hm]
    simpa using hnone
  rw [baseOf, hname, byName, hfind]
  rfl

private theorem exists_baseOf (hm : m.Indexed) (hknown : position.label.isEmpty = true ∨
    ∃ label ∈ (build m.script).1.labels, label.name = Label.key position.label.toList) :
    ∃ base ≤ m.script.size, m.baseOf position = .ok base := by
  rw [baseOf, hm]
  by_cases hempty : position.label.isEmpty = true
  · exact ⟨0, Nat.zero_le _, if_pos hempty⟩
  · obtain ⟨label, hmem, hname⟩ := hknown.resolve_left hempty
    refine ⟨label.start, (stands_of_mem_build hmem).start.le_size, ?_⟩
    rw [if_neg hempty, byName_eq_ok_iff.mpr ⟨hmem, hname⟩]
    rfl

/-- **A saved position leads to itself exactly if its line exists under its label.** Take any
position with a line and an offset that are not negative. If there is a line at its place, the
address is the one on this line whose position it is, and an offset beyond the end of the line is an
error. Whenever an address is found, its position is the one that was looked up exactly if there is
such a line. A label that the script does not define is an error. But a line that does not exist
under its label is none in itself: at offset 0, an address with another position is always found. -/
theorem position_resolves_to_itself_iff (hm : m.Indexed) (hline : 0 ≤ position.line)
    (hoffset : 0 ≤ position.offset) :
    (∀ start, m.script.IsLineStart start →
      m.script.PlaceOf start position.label position.line.toInt.toNat →
      (start + position.offset.toInt.toNat ≤ m.script.lineEnd start →
        m.addressOf position = .ok (start + position.offset.toInt.toNat) ∧
          m.positionOf (start + position.offset.toInt.toNat) = position) ∧
      (m.script.lineEnd start < start + position.offset.toInt.toNat →
        m.addressOf position =
          .error (.positionPastLine position.label position.line position.offset))) ∧
    (∀ addr, m.addressOf position = .ok addr →
      (m.positionOf addr = position ↔
        m.script.HasLine position.label position.line.toInt.toNat)) ∧
    (position.label.isEmpty = false →
      (∀ label ∈ (build m.script).1.labels, label.name ≠ Label.key position.label.toList) →
      m.addressOf position = .error (.undefinedLabel (Label.key position.label.toList))) ∧
    (position.label.isEmpty = true ∨
        (∃ label ∈ (build m.script).1.labels, label.name = Label.key position.label.toList) →
      ¬ m.script.HasLine position.label position.line.toInt.toNat → position.offset = 0 →
      ∃ addr, m.addressOf position = .ok addr ∧ m.positionOf addr ≠ position) := by
  have hitself : ∀ addr, m.addressOf position = .ok addr → (m.positionOf addr = position ↔
      m.script.HasLine position.label position.line.toInt.toNat) := by
    intro addr haddr
    refine ⟨hasLine_of_positionOf hm (addressOf_le haddr), fun ⟨start, hstart, hplace⟩ => ?_⟩
    obtain ⟨hfound, hpast⟩ := addressOf_of_hasLine hm hline hoffset hstart hplace
    rcases Nat.lt_or_ge (m.script.lineEnd start) (start + position.offset.toInt.toNat) with hlt | hle
    · rw [hpast hlt] at haddr
      cases haddr
    · obtain ⟨hok, hposition⟩ := hfound hle
      rw [hok] at haddr
      cases haddr
      exact hposition
  refine ⟨fun start => addressOf_of_hasLine hm hline hoffset, hitself, fun hname hnone => ?_,
    fun hknown hgone hzero => ?_⟩
  · rw [addressOf, baseOf_of_notMem hm hname hnone]
    rfl
  · obtain ⟨base, hsize, hbase⟩ := exists_baseOf hm hknown
    have haddress := addressOf_of_baseOf hbase hsize hoffset rfl
    have hstart : m.script.linesDown position.line.toInt.toNat base ≤ m.script.size :=
      Script.linesDown_le_size hsize
    have hend := Script.le_lineEnd hstart
    rw [hzero, Int32.toInt_zero, Int.toNat_zero, Nat.add_zero, if_pos hend] at haddress
    exact ⟨_, haddress, fun hsame => hgone ((hitself _ haddress).mp hsame)⟩

/-- Two sections, the first of which goes on with some lines. -/
def sectionsWith (lines : String) : Script where
  bytes := (Bytes.ofText "*a\none\n" ++ Bytes.ofText lines ++ Bytes.ofText "*b\nthree\n").toArray
  encoding := .utf8

/-- Where the second section has a line it is found, and the first one has no third line. -/
theorem position_resolves_to_itself_twoSections :
    let t := fresh (sectionsWith "") {} .absent
    t.Indexed ∧ t.addressOf ⟨"b", 1, 2⟩ = .ok 12 ∧ t.script.HasLine "b" 1 ∧
      t.addressOf ⟨"a", 2, 0⟩ = .ok 7 ∧ ¬ t.script.HasLine "a" 2 := by
  intro t
  have ht : t.Indexed :=
    (Reachable.load (show load (sectionsWith "") {} .absent = .ok t from rfl)).indexed
  have hfound : t.addressOf ⟨"b", 1, 2⟩ = .ok 12 := by decide +kernel
  have hmoved : t.addressOf ⟨"a", 2, 0⟩ = .ok 7 := by decide +kernel
  obtain ⟨-, hitself, -⟩ := @position_resolves_to_itself_iff t ⟨"b", 1, 2⟩ ht
    (by decide +kernel) (by decide +kernel)
  obtain ⟨-, hitself', -⟩ := @position_resolves_to_itself_iff t ⟨"a", 2, 0⟩ ht
    (by decide +kernel) (by decide +kernel)
  exact ⟨ht, hfound, (hitself 12 hfound).mp (by decide +kernel), hmoved,
    (hitself' 7 hmoved).not.mp (by decide +kernel)⟩

/-- A game is saved on the third line of the first section. When that line is deleted, the saved
position leads to the second section instead, without an error. -/
theorem position_moved_lineDeleted :
    let s := fresh (sectionsWith "two\n") {} .absent
    let t := fresh (sectionsWith "") {} .absent
    s.positionOf 7 = ⟨"a", 2, 0⟩ ∧ Label.key "a".toList = "a" ∧
      t.addressOf (s.positionOf 7) = .ok 7 ∧ t.positionOf 7 = ⟨"b", 0, 0⟩ := by
  decide +kernel

end Machine

end NovelScript
