import NovelScript.Proofs.Machine.Position
import NovelScript.Proofs.Machine.Reachable
import NovelScript.Proofs.Script.Excerpt

/-!
# Saved positions in a script that was edited

A position tells the lines below its label, so it does not depend on what comes before. After an
edit of other lines, the address that is found for a position saved before the edit is the one that
has moved along with its lines.
-/

namespace NovelScript.Machine

variable {s t : Machine}

/-- The machine has the labels of its script. -/
def Indexed (m : Machine) : Prop :=
  m.labels = (LabelTable.build m.script).1

/-- So has every machine that can be reached. -/
theorem Reachable.indexed {m : Machine} (h : Reachable m) : m.Indexed :=
  h.inside.labels

/-- The label of a saved position begins where its name is defined first, at or before the
address. -/
theorem exists_labelOffset?_of_positionOf (hs : s.Indexed) {name : String} {addr : Nat}
    (hname : name.isEmpty = false) (hlabel : (s.positionOf addr).label = name) :
    ∃ base ≤ addr, Bytes.labelOffset? s.script.bytes.toList name = some base ∧
      (s.positionOf addr).line =
        Int32.ofNat (s.script.newlinesBetween base (s.script.lineStart addr)) := by
  cases henclosing : s.labels.enclosing? addr with
  | none =>
    have hempty : (s.positionOf addr).label = "" := by simp only [positionOf, henclosing]; rfl
    rw [← hlabel, hempty] at hname
    cases hname
  | some label =>
    obtain ⟨hmem, hle⟩ := LabelTable.mem_of_enclosing? henclosing
    have hown : label.name = name := by
      rw [← hlabel]
      simp only [positionOf, henclosing]
      rfl
    rw [hs] at hmem
    refine ⟨label.start, hle, ?_, ?_⟩
    · rw [← LabelTable.map_start_find?_build, ← hown,
        LabelTable.find?_of_mem (LabelTable.pairwise_build _) hmem]
      rfl
    · simp only [positionOf, henclosing]
      rfl

/-- Lines are counted from where the name of a position is defined first. -/
theorem baseOf_eq_ok (ht : t.Indexed) {position : SavedPosition} {base : Nat}
    (hname : position.label.isEmpty = false)
    (hkey : Label.key position.label.toList = position.label)
    (hbase : Bytes.labelOffset? t.script.bytes.toList position.label = some base) :
    t.baseOf position = .ok base ∧ t.script.IsLineStart base := by
  rw [← LabelTable.map_start_find?_build, Option.map_eq_some_iff] at hbase
  obtain ⟨label, hfind, hstart⟩ := hbase
  have hbyName : t.labels.byName position.label = .ok label := by
    rw [LabelTable.byName, LabelTable.find?, hkey, ht, hfind]
  constructor
  · rw [baseOf, hname, hbyName, ← hstart]
    rfl
  · rw [← hstart]
    exact (LabelTable.stands_of_mem_build (List.mem_of_find?_eq_some hfind)).start

/-- A name that a text defines is not empty and is in the form in which it is looked up. -/
theorem key_of_mem_labelNames {text : Bytes} {name : String} (h : name ∈ Bytes.labelNames text) :
    Label.key name.toList = name ∧ name.isEmpty = false := by
  obtain ⟨line, -, hline⟩ := List.mem_filterMap.mp h
  obtain ⟨hkey, hname, -⟩ := LabelTable.key_of_labelOfLine? hline
  exact ⟨hkey, hname⟩

/-- The same place of the same lines is found in another script, if the position tells it by a name
that these lines are the first to define. -/
theorem addressOf_positionOf_of_body_eq (hs : s.Indexed) (ht : t.Indexed)
    (hsize : t.script.size < 2 ^ 31) {e : s.script.Excerpt} {e' : t.script.Excerpt}
    (hsame : e'.body = e.body) {name : String} (hbody : name ∈ Bytes.labelNames e.body)
    (hfront : name ∉ Bytes.labelNames e.front) (hfront' : name ∉ Bytes.labelNames e'.front)
    {k : Nat} (hk : k ≤ e.body.length) (hlabel : (s.positionOf (e.start + k)).label = name) :
    t.addressOf (s.positionOf (e.start + k)) = .ok (e'.start + k) := by
  obtain ⟨hkey, hname⟩ := key_of_mem_labelNames hbody
  obtain ⟨base, hle, hoffset, hline⟩ := exists_labelOffset?_of_positionOf hs hname hlabel
  -- The label begins `first` bytes into the lines, in both scripts.
  rw [e.labelOffset?_eq hbody hfront, Option.map_eq_some_iff] at hoffset
  obtain ⟨first, hfirst, rfl⟩ := hoffset
  have hoffset' : Bytes.labelOffset? t.script.bytes.toList name = some (e'.start + first) := by
    rw [e'.labelOffset?_eq (hsame ▸ hbody) hfront', hsame, hfirst, Nat.add_comm]
    rfl
  subst hlabel
  obtain ⟨hbase, hstart⟩ := baseOf_eq_ok ht hname hkey hoffset'
  have hsize' : e'.start + k ≤ t.script.size := e'.covers_le_size ⟨by omega, by rw [hsame]; omega⟩
  -- So does the line of the address, `start` bytes into them.
  obtain ⟨start, hstartLe, hlineStart, hlineStart'⟩ := Script.Excerpt.exists_lineStart_add hsame hk
  have hbelow : first ≤ start := by
    have := hstart.le_lineStart (by omega) hsize'
    omega
  apply addressOf_eq_ok hsize hbase hstart (by omega) hsize'
  · rw [hline, hlineStart, hlineStart', Nat.add_comm first,
      Script.Excerpt.newlinesBetween_eq hsame hbelow (by omega)]
  · have hoffset : (s.positionOf (e.start + k)).offset =
        Int32.ofNat (e.start + k - s.script.lineStart (e.start + k)) := rfl
    rw [hoffset, hlineStart, hlineStart', Nat.add_sub_add_left, Nat.add_sub_add_left]

/-- **Saved positions survive edits of other lines.** Let the same whole lines stand in two scripts,
and let them define a name that no line before them defines, in either script. The position of an
address in these lines, if it is told by that name, leads in the second script to the same place of
the same lines. Without an edit, every address of the script is found again, also before the first
label. -/
theorem addressOf_positionOf_edited (hs : s.Indexed) (ht : t.Indexed)
    (hsize : s.script.size < 2 ^ 31) (hsize' : t.script.size < 2 ^ 31) :
    (∀ (e : s.script.Excerpt) (e' : t.script.Excerpt), e'.body = e.body →
      ∀ name ∈ Bytes.labelNames e.body, name ∉ Bytes.labelNames e.front →
        name ∉ Bytes.labelNames e'.front →
      ∀ addr, e.Covers addr → (s.positionOf addr).label = name →
        t.addressOf (s.positionOf addr) = .ok (addr - e.front.length + e'.front.length)) ∧
    (t.script = s.script →
      ∀ addr ≤ s.script.size, t.addressOf (s.positionOf addr) = .ok addr) := by
  constructor
  · intro e e' hsame name hbody hfront hfront' addr hcovers hlabel
    obtain ⟨k, rfl⟩ := Nat.exists_eq_add_of_le hcovers.1
    have hk : k ≤ e.body.length := by
      have := hcovers.2
      omega
    have hplace : e.start + k - e.front.length + e'.front.length = e'.start + k := by
      simp only [Script.Excerpt.start]
      omega
    rw [hplace]
    exact addressOf_positionOf_of_body_eq hs ht hsize' hsame hbody hfront hfront' hk hlabel
  · intro hscript addr haddr
    exact addressOf_positionOf ⟨hscript, hs, hscript ▸ ht⟩ hsize haddr

/-- Two sections, of which the second has an indented label in upper case. -/
def twoSections : Bytes :=
  Bytes.ofText "*a\nadd %1,1\n\n  *B\nmov %1,2\n"

/-- The sections among other lines. -/
def amongLines (front back : String) : Script where
  bytes := (Bytes.ofText front ++ twoSections ++ Bytes.ofText back).toArray
  encoding := .utf8

/-- The sections as whole lines of a script. -/
def twoSectionsIn (front back : String) (h : Bytes.WholeLines (Bytes.ofText front)) :
    (amongLines front back).Excerpt where
  front := Bytes.ofText front
  body := twoSections
  back := Bytes.ofText back
  text := rfl
  front_whole := h
  body_whole := .inr (by decide +kernel)

/-- A position in the second section survives that lines with another label are written before the
sections and the label is defined once more after them. An address before the first label is found
again in the same script. -/
theorem addressOf_positionOf_linesWrittenBefore :
    let s := fresh (amongLines "game\n" "end\n") {} .absent
    let t := fresh (amongLines "*c\nmov %1,3\nreturn\n" "*b\nend\n") {} .absent
    s.Indexed ∧ t.Indexed ∧ (s.positionOf 27).label = "b" ∧
      t.addressOf (s.positionOf 27) = .ok 41 ∧ s.addressOf (s.positionOf 3) = .ok 3 := by
  intro s t
  have hs : s.Indexed :=
    (Reachable.load (show load (amongLines "game\n" "end\n") {} .absent = .ok s from rfl)).indexed
  have ht : t.Indexed :=
    (Reachable.load (show load (amongLines "*c\nmov %1,3\nreturn\n" "*b\nend\n") {} .absent =
      .ok t from rfl)).indexed
  have hsize : s.script.size < 2 ^ 31 := by decide +kernel
  have hsize' : t.script.size < 2 ^ 31 := by decide +kernel
  have hlabel : (s.positionOf 27).label = "b" := by decide +kernel
  obtain ⟨hedited, -⟩ := addressOf_positionOf_edited hs ht hsize hsize'
  obtain ⟨-, hsame⟩ := addressOf_positionOf_edited hs hs hsize hsize
  have hmoved := hedited (twoSectionsIn _ _ (.inr (by decide +kernel)))
    (twoSectionsIn _ _ (.inr (by decide +kernel))) rfl "b" (by decide +kernel) (by decide +kernel)
    (by decide +kernel) 27 ⟨by decide +kernel, by decide +kernel⟩ hlabel
  exact ⟨hs, ht, hlabel, hmoved, hsame rfl 3 (by decide +kernel)⟩

end NovelScript.Machine
