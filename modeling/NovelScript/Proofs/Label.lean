import Mathlib.Data.List.Nodup
import NovelScript.Proofs.Label.Marks

/-!
# The label table of a script

Every label of the table stands at the start of a line, and is found again by its name: its name is
in the form in which names are looked up, and no two labels of the table have the same name. The
labels are in the order of the script, and an address belongs to the last one at or before it.
-/

namespace NovelScript

namespace LabelTable

/-- The line of a label. -/
def markOf (label : Label) : Mark :=
  ⟨label.name, label.start, label.startLine⟩

/-- Counting the lines of the labels leaves their names and places alone. -/
theorem map_markOf_closeMarks (total : Nat) (marks : List Mark) :
    (closeMarks total marks).map markOf = marks := by
  fun_induction closeMarks total marks with
  | case1 => rfl
  | case2 => rfl
  | case3 mark next marks ih => rw [List.map_cons, ih]; rfl

/-! ## The table -/

variable {script : Script} {label : Label}

/-- What every label of the table of a script is. -/
structure Stands (script : Script) (label : Label) : Prop where
  /-- It stands at the start of a line. -/
  start : script.IsLineStart label.start
  /-- Its name is in the form in which it is looked up. -/
  key : Label.key label.name.toList = label.name
  /-- It has a name. -/
  name : label.name.isEmpty = false
  /-- The name has no zero character. -/
  plain : '\x00' ∉ label.name.toList

/-- The labels of a script are those of the first marks of their names. -/
theorem map_markOf_build (script : Script) : (build script).1.labels.map markOf =
    (firstMarks (marksOfLines (Bytes.lines script.bytes.toList) 0 0) []).1 :=
  map_markOf_closeMarks _ _

/-- A label of the table is defined by the line with its number. -/
theorem defines_of_mem_build (h : label ∈ (build script).1.labels) :
    script.Defines label.start label.name ∧
      script.newlinesBetween 0 label.start = label.startLine := by
  have hmark : markOf label ∈ _ := List.mem_map_of_mem h
  rw [map_markOf_build] at hmark
  exact mem_marks_iff.mp ((sublist_firstMarks _ _).subset hmark)

/-- The labels of a table stand in the script that it was built from. -/
theorem stands_of_mem_build (h : label ∈ (build script).1.labels) : Stands script label := by
  obtain ⟨⟨hstart, hspelled⟩, -⟩ := defines_of_mem_build h
  have hlabel := (script.labelOfLine?_ahead_iff label.start label.name).mpr hspelled
  obtain ⟨hkey, hsome, hplain⟩ := key_of_labelOfLine? hlabel
  exact ⟨hstart, hkey, hsome, hplain⟩

/-- A table has one label for each name. -/
theorem pairwise_build (script : Script) :
    (build script).1.labels.Pairwise fun a b => a.name ≠ b.name := by
  have hmarks := pairwise_firstMarks (marksOfLines (Bytes.lines script.bytes.toList) 0 0) []
  rw [← map_markOf_build] at hmarks
  exact (List.pairwise_map (f := markOf)).mp hmarks

/-- Among labels with different names each one is found by its name. -/
theorem find?_of_mem {labels : List Label} (hnames : labels.Pairwise fun a b => a.name ≠ b.name)
    (h : label ∈ labels) : (labels.find? fun l => l.name == label.name) = some label := by
  induction labels with
  | nil => cases h
  | cons first labels ih =>
    obtain ⟨hfirst, hrest⟩ := List.pairwise_cons.mp hnames
    rcases List.mem_cons.mp h with rfl | h
    · exact List.find?_cons_of_pos (by simp)
    · rw [List.find?_cons_of_neg (by simpa using hfirst label h), ih hrest h]

private theorem find?_of_byName {table : LabelTable} {name : String}
    (h : table.byName name = .ok label) : table.find? name = some label := by
  rw [byName] at h
  split at h
  · next found hfound =>
    cases h
    exact hfound
  · cases h

/-- What is found by a name is a label of the table. -/
theorem mem_of_byName {table : LabelTable} {name : String} (h : table.byName name = .ok label) :
    label ∈ table.labels :=
  List.mem_of_find?_eq_some (find?_of_byName h)

/-- A name is looked up in lower case and without the asterisk. -/
theorem byName_eq_ok_iff {name : String} : (build script).1.byName name = .ok label ↔
    label ∈ (build script).1.labels ∧ label.name = Label.key name.toList := by
  constructor
  · intro h
    exact ⟨mem_of_byName h, by simpa using List.find?_some (find?_of_byName h)⟩
  · rintro ⟨hmem, hname⟩
    rw [byName, find?, ← hname, find?_of_mem (pairwise_build script) hmem]

/-- **A label of the table is found by its name.** -/
theorem byName_build (h : label ∈ (build script).1.labels) :
    (build script).1.byName label.name = .ok label :=
  byName_eq_ok_iff.mpr ⟨h, (stands_of_mem_build h).key.symm⟩

/-- The label around an address is a label of the table. -/
theorem mem_of_byAddress? {table : LabelTable} {addr : Nat}
    (h : table.byAddress? addr = some label) : label ∈ table.labels := by
  rw [byAddress?, Option.orElse_eq_orElse, Option.orElse_eq_or, Option.or_eq_some_iff] at h
  rcases h with hlast | ⟨-, hfirst⟩
  · exact (List.mem_filter.mp (List.mem_of_getLast? hlast)).1
  · exact List.mem_of_head? hfirst

/-- The label of an address is a label of the table that does not come after the address. -/
theorem mem_of_enclosing? {table : LabelTable} {addr : Nat}
    (h : table.enclosing? addr = some label) : label ∈ table.labels ∧ label.start ≤ addr := by
  obtain ⟨hlabel, hle⟩ := Option.filter_eq_some_iff.mp h
  exact ⟨mem_of_byAddress? hlabel, by simpa using hle⟩

/-! ## The order of labels -/

section Sorted

variable {labels : List Label} {key : Label → Nat} {label label' : Label} {bound : Nat}
variable (hsorted : labels.Pairwise fun a b => key a < key b)
include hsorted

/-- Labels with different keys are told apart by them. -/
theorem eq_of_key_eq (h : label ∈ labels) (h' : label' ∈ labels) (heq : key label = key label') :
    label = label' := by
  have hnodup : (labels.map key).Nodup :=
    List.pairwise_map.mpr (hsorted.imp fun hlt => Nat.ne_of_lt hlt)
  exact List.inj_on_of_nodup_map hnodup h h' heq

/-- The last one of the labels up to a bound is the greatest one. -/
theorem le_of_getLast? (h : (labels.filter fun l => key l ≤ bound).getLast? = some label)
    (h' : label' ∈ labels) (hle : key label' ≤ bound) : key label' ≤ key label := by
  obtain ⟨before, hsplit⟩ := List.getLast?_eq_some_iff.mp h
  have hpairs := hsorted.filter fun l => decide (key l ≤ bound)
  rw [hsplit] at hpairs
  have hmem : label' ∈ before ++ [label] := by
    rw [← hsplit]
    exact List.mem_filter.mpr ⟨h', by simpa using hle⟩
  rcases List.mem_append.mp hmem with hbefore | hlast
  · exact Nat.le_of_lt ((List.pairwise_append.mp hpairs).2.2 label' hbefore label (by simp))
  · rw [List.mem_singleton.mp hlast]

/-- The last label with a key up to a bound is the one with the greatest such key. -/
theorem getLast?_filter_eq_some_iff :
    (labels.filter fun l => key l ≤ bound).getLast? = some label ↔ label ∈ labels ∧
      key label ≤ bound ∧ ∀ other ∈ labels, key other ≤ bound → key other ≤ key label := by
  constructor
  · intro h
    obtain ⟨hmem, hle⟩ := List.mem_filter.mp (List.mem_of_getLast? h)
    exact ⟨hmem, by simpa using hle, fun other => le_of_getLast? hsorted h⟩
  · rintro ⟨hmem, hle, hgreatest⟩
    have hsome : label ∈ labels.filter fun l => key l ≤ bound :=
      List.mem_filter.mpr ⟨hmem, by simpa using hle⟩
    have hlast := List.getLast?_eq_some_getLast (List.ne_nil_of_mem hsome)
    obtain ⟨hmem', hle'⟩ := List.mem_filter.mp (List.mem_of_getLast? hlast)
    have hge := le_of_getLast? hsorted hlast hmem hle
    rw [hlast, eq_of_key_eq hsorted hmem' hmem]
    exact Nat.le_antisymm (hgreatest _ hmem' (by simpa using hle')) hge

end Sorted

/-- The labels of a script are in the order of their lines. -/
theorem sorted_build (script : Script) :
    (build script).1.labels.Pairwise fun a b => a.start < b.start := by
  have hmarks := (sorted_marksOfLines (Bytes.lines script.bytes.toList) 0 0).2.sublist
    (sublist_firstMarks _ [])
  rw [← map_markOf_build] at hmarks
  exact (List.pairwise_map (f := markOf)).mp hmarks

variable {table : LabelTable} {addr : Nat} {label : Label}

/-- The label of an address is the last one of those at or before it. -/
theorem enclosing?_eq (table : LabelTable) (addr : Nat) :
    table.enclosing? addr = (table.labels.filter fun l => l.start ≤ addr).getLast? := by
  rw [enclosing?, byAddress?, Option.orElse_eq_orElse, Option.orElse_eq_or]
  cases hlast : (table.labels.filter fun l => l.start ≤ addr).getLast? with
  | some label =>
    have hle := (List.mem_filter.mp (List.mem_of_getLast? hlast)).2
    simp [Option.filter, hle]
  | none =>
    have hnone : ∀ l ∈ table.labels, ¬ l.start ≤ addr := by
      simpa using List.getLast?_eq_none_iff.mp hlast
    rw [Option.none_or]
    apply Option.filter_eq_none_iff.mpr
    intro l hl
    simpa using hnone l (List.mem_of_head? hl)

/-- In a table in order, the label of an address is the greatest one at or before it. -/
theorem le_of_enclosing? (hsorted : table.labels.Pairwise fun a b => a.start < b.start)
    (h : table.enclosing? addr = some label) {other : Label} (hother : other ∈ table.labels)
    (hle : other.start ≤ addr) : other.start ≤ label.start := by
  rw [enclosing?_eq] at h
  exact le_of_getLast? hsorted h hother hle

/-- An address outside of all labels is in front of each of them. -/
theorem lt_of_enclosing?_eq_none (h : table.enclosing? addr = none)
    (hlabel : label ∈ table.labels) : addr < label.start := by
  rw [enclosing?_eq, List.getLast?_eq_none_iff, List.filter_eq_nil_iff] at h
  simpa using h label hlabel

end LabelTable

end NovelScript
