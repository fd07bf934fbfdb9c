import NovelScript.Proofs.Label

/-!
# The indexes of the label table agree

Labels are found by their names, by addresses and by line numbers. All of these go by the same
labels: the first definition of each name, in the order of the script. The lines from one label up
to the next are its section. The sections cover the lines from the first label on without
overlapping, and a line of a section leads to its label and to its number below the label, and back.
-/

namespace NovelScript

/-- The first of the lines that define the label with a name begins at an address. -/
structure Script.DefinesFirst (s : Script) (pos : Nat) (name : String) : Prop extends
    s.Defines pos name where
  /-- All lines that define it begin there or below. -/
  first : ∀ other, s.Defines other name → pos ≤ other

/-- A line belongs to the section of a label. -/
def Label.Covers (label : Label) (line : Nat) : Prop :=
  label.startLine ≤ line ∧ line < label.startLine + label.lineCount

namespace LabelTable

variable {script : Script} {table : LabelTable} {label : Label} {name : String}
variable {addr start line k : Nat}

/-! ## First definitions -/

/-- The table holds the first definition of each name. -/
theorem exists_label_iff :
    (∃ label ∈ (build script).1.labels,
        label.name = name ∧ label.start = start ∧ label.startLine = line) ↔
      script.DefinesFirst start name ∧ script.newlinesBetween 0 start = line := by
  have hmarks : (∃ label ∈ (build script).1.labels,
      label.name = name ∧ label.start = start ∧ label.startLine = line) ↔
      ⟨name, start, line⟩ ∈ (build script).1.labels.map markOf := by
    simp [markOf]
  have hsorted := (sorted_marksOfLines (Bytes.lines script.bytes.toList) 0 0).2
  rw [hmarks, map_markOf_build, mem_firstMarks_iff hsorted, mem_marks_iff]
  constructor
  · rintro ⟨⟨hdefines, hline⟩, -, hfirst⟩
    refine ⟨⟨hdefines, fun other hother => ?_⟩, hline⟩
    exact hfirst ⟨name, other, script.newlinesBetween 0 other⟩ (mem_marks_iff.mpr ⟨hother, rfl⟩) rfl
  · rintro ⟨⟨hdefines, hfirst⟩, hline⟩
    refine ⟨⟨hdefines, hline⟩, List.not_mem_nil, fun other hother hname => ?_⟩
    obtain rfl : other.name = name := hname
    exact hfirst other.start (mem_marks_iff.mp hother).1

/-! ## Addresses and lines -/

/-- The label of an address is the greatest one at or before it, or else the first label. -/
inductive Nearest (table : LabelTable) (addr : Nat) (label : Label) : Prop
  /-- There is a label at or before the address. -/
  | above (hmem : label ∈ table.labels) (hle : label.start ≤ addr)
    (hlast : ∀ other ∈ table.labels, other.start ≤ addr → other.start ≤ label.start)
  /-- There is none. -/
  | first (hhead : table.labels.head? = some label)
    (habove : ∀ other ∈ table.labels, addr < other.start)

private theorem byAddress?_eq_some_iff
    (hsorted : table.labels.Pairwise fun a b => a.start < b.start) :
    table.byAddress? addr = some label ↔ table.Nearest addr label := by
  rw [byAddress?, Option.orElse_eq_orElse, Option.orElse_eq_or, Option.or_eq_some_iff,
    getLast?_filter_eq_some_iff hsorted, List.getLast?_eq_none_iff, List.filter_eq_nil_iff]
  simp only [decide_eq_true_eq, Nat.not_le]
  constructor
  · rintro (⟨hmem, hle, hlast⟩ | ⟨habove, hhead⟩)
    · exact .above hmem hle hlast
    · exact .first hhead habove
  · rintro (⟨hmem, hle, hlast⟩ | ⟨hhead, habove⟩)
    · exact .inl ⟨hmem, hle, hlast⟩
    · exact .inr ⟨habove, hhead⟩

/-- Labels are at or before an address exactly if they are at or before its line. -/
theorem start_le_iff (h : label ∈ (build script).1.labels) :
    label.start ≤ addr ↔ label.startLine ≤ script.newlinesBetween 0 addr := by
  obtain ⟨hdefines, hline⟩ := defines_of_mem_build h
  rw [hdefines.start.le_iff, hline]

/-- An address and its line have the same label. -/
theorem byAddress?_eq_byLine? (script : Script) (addr : Nat) : (build script).1.byAddress? addr =
    (build script).1.byLine? (script.newlinesBetween 0 addr) := by
  have hsame : ((build script).1.labels.filter fun l => l.start ≤ addr) =
      (build script).1.labels.filter fun l => l.startLine ≤ script.newlinesBetween 0 addr :=
    List.filter_congr fun l hl => decide_eq_decide.mpr (start_le_iff hl)
  rw [byAddress?, byLine?, hsame]

private theorem sorted_startLine_build (script : Script) :
    (build script).1.labels.Pairwise fun a b => a.startLine < b.startLine := by
  refine (sorted_build script).imp_of_mem fun hmem hmem' hlt => ?_
  obtain ⟨-, hline⟩ := defines_of_mem_build hmem
  obtain ⟨hdefines', hline'⟩ := defines_of_mem_build hmem'
  rw [← hline, ← hline']
  exact hdefines'.start.newlinesBetween_lt hlt

/-! ## Sections -/

/-- A line is in the section of the last label at or before it. -/
theorem covers_closeMarks {total : Nat} {marks : List Mark}
    (hsorted : marks.Pairwise fun a b => a.line < b.line) (htotal : ∀ mark ∈ marks, mark.line < total)
    (h : label ∈ closeMarks total marks) :
    label.Covers line ↔ label.startLine ≤ line ∧ line < total ∧
      ∀ mark ∈ marks, mark.line ≤ line → mark.line ≤ label.startLine := by
  fun_induction closeMarks total marks with
  | case1 => cases h
  | case2 mark =>
    obtain rfl := List.mem_singleton.mp h
    have hmark := htotal mark List.mem_cons_self
    simp only [Label.Covers, List.mem_singleton, forall_eq]
    omega
  | case3 mark next marks ih =>
    obtain ⟨hmark, hrest⟩ := List.pairwise_cons.mp hsorted
    rcases List.mem_cons.mp h with rfl | h
    · -- The section of the first label goes up to the second one.
      have hlt := hmark next List.mem_cons_self
      have hnext := htotal next (List.mem_cons_of_mem _ List.mem_cons_self)
      simp only [Label.Covers]
      constructor
      · intro hcovers
        refine ⟨hcovers.1, by omega, fun other hother hle => ?_⟩
        rcases List.mem_cons.mp hother with rfl | hother
        · exact Nat.le_refl _
        · rcases List.mem_cons.mp hother with rfl | hother
          · omega
          · have := (List.pairwise_cons.mp hrest).1 other hother
            omega
      · rintro ⟨hle, -, hlast⟩
        have := hlast next (List.mem_cons_of_mem _ List.mem_cons_self)
        omega
    · have hlabel : markOf label ∈ _ := List.mem_map_of_mem h
      rw [map_markOf_closeMarks] at hlabel
      have hlt : mark.line < label.startLine := hmark _ hlabel
      have hothers : (∀ other ∈ mark :: next :: marks,
            other.line ≤ line → other.line ≤ label.startLine) ↔
          ∀ other ∈ next :: marks, other.line ≤ line → other.line ≤ label.startLine := by
        rw [List.forall_mem_cons]
        exact and_iff_right fun _ => Nat.le_of_lt hlt
      rw [hothers]
      exact ih hrest (fun other hother => htotal other (List.mem_cons_of_mem _ hother)) h

/-- A line of the script is in the section of the label that is found for it. -/
theorem covers_iff (h : label ∈ (build script).1.labels) :
    label.Covers line ↔ label.startLine ≤ line ∧ (∃ pos, script.LineAt line pos) ∧
      ∀ other ∈ (build script).1.labels, other.startLine ≤ line → other.startLine ≤ label.startLine := by
  let marks := (firstMarks (marksOfLines (Bytes.lines script.bytes.toList) 0 0) []).1
  have hmarks : (build script).1.labels.map markOf = marks := map_markOf_build script
  have hsorted : marks.Pairwise fun a b => a.line < b.line := by
    rw [← hmarks, List.pairwise_map]
    exact sorted_startLine_build script
  have htotal : ∀ mark ∈ marks, mark.line < (Bytes.lines script.bytes.toList).length := by
    intro mark hmark
    obtain ⟨hdefines, hline⟩ := mem_marks_iff.mp ((sublist_firstMarks _ _).subset hmark)
    exact Script.exists_lineAt_iff.mp ⟨mark.start, hdefines.start, hdefines.lt_size, hline⟩
  rw [covers_closeMarks hsorted htotal h, Script.exists_lineAt_iff, ← hmarks]
  simp [markOf]

/-- A line is the line of the first label, or one of those below it. -/
def InSections (script : Script) (line : Nat) : Prop :=
  (∃ pos, script.LineAt line pos) ∧
    ∃ first ∈ (build script).1.labels.head?, first.startLine ≤ line

/-- Sections do not overlap. -/
theorem eq_of_covers {label' : Label} (h : label ∈ (build script).1.labels)
    (h' : label' ∈ (build script).1.labels) (hcovers : label.Covers line)
    (hcovers' : label'.Covers line) : label = label' := by
  obtain ⟨hle, -, hlast⟩ := (covers_iff h).mp hcovers
  obtain ⟨hle', -, hlast'⟩ := (covers_iff h').mp hcovers'
  exact eq_of_key_eq (sorted_startLine_build script) h h'
    (Nat.le_antisymm (hlast' label h hle) (hlast label' h' hle'))

private theorem exists_covers_iff :
    (∃ label ∈ (build script).1.labels, label.Covers line) ↔ InSections script line := by
  constructor
  · rintro ⟨label, hmem, hcovers⟩
    obtain ⟨hle, hline, -⟩ := (covers_iff hmem).mp hcovers
    refine ⟨hline, ?_⟩
    cases hlabels : (build script).1.labels with
    | nil =>
      rw [hlabels] at hmem
      cases hmem
    | cons first labels =>
      refine ⟨first, rfl, ?_⟩
      have hsorted := sorted_startLine_build script
      rw [hlabels] at hsorted hmem
      rcases List.mem_cons.mp hmem with rfl | hmem
      · exact hle
      · have := (List.pairwise_cons.mp hsorted).1 label hmem
        omega
  · rintro ⟨hline, first, hfirst, hle⟩
    -- The last label at or before the line covers it.
    have hsome : first ∈ (build script).1.labels.filter fun l => l.startLine ≤ line :=
      List.mem_filter.mpr ⟨List.mem_of_head? hfirst, by simpa using hle⟩
    have hlast := List.getLast?_eq_some_getLast (List.ne_nil_of_mem hsome)
    obtain ⟨hmem, hle', hgreatest⟩ :=
      (getLast?_filter_eq_some_iff (sorted_startLine_build script)).mp hlast
    exact ⟨_, hmem, (covers_iff hmem).mpr ⟨hle', hline, hgreatest⟩⟩

/-- The label of an address on a line of a section. -/
theorem byAddress?_of_covers (h : label ∈ (build script).1.labels) (hcovers : label.Covers line)
    (hline : script.newlinesBetween 0 addr = line) :
    (build script).1.byAddress? addr = some label := by
  obtain ⟨hle, -, hlast⟩ := (covers_iff h).mp hcovers
  refine (byAddress?_eq_some_iff (sorted_build script)).mpr (.above h ?_ fun other hother hle' => ?_)
  · rwa [start_le_iff h, hline]
  · rw [start_le_iff hother, hline] at hle'
    rw [start_le_iff hother, (defines_of_mem_build h).2]
    exact hlast other hother hle'

/-- A line of a section is found from its label, and its label and number are found again. -/
theorem lineAddress_of_lt (h : label ∈ (build script).1.labels) (hk : k < label.lineCount) :
    ∃ addr, (build script).1.lineAddress script label.name k = .ok addr ∧
      script.LineAt (label.startLine + k) addr ∧ (build script).1.byAddress? addr = some label ∧
      (build script).1.lineInLabel script addr = k := by
  have hcovers : label.Covers (label.startLine + k) := ⟨Nat.le_add_right _ _, by omega⟩
  obtain ⟨-, ⟨addr, hstart, hsize, hline⟩, -⟩ := (covers_iff h).mp hcovers
  have hle : label.start ≤ addr := by
    rw [start_le_iff h, hline]
    exact Nat.le_add_right _ _
  have hcount : script.newlinesBetween label.start addr = k := by
    rw [script.newlinesBetween_eq_sub hle, hline, (defines_of_mem_build h).2, Nat.add_sub_cancel_left]
  have hlabel := byAddress?_of_covers h hcovers hline
  refine ⟨addr, ?_, ⟨hstart, hsize, hline⟩, hlabel, ?_⟩
  · rw [lineAddress, byName_build h, ← hcount]
    exact congrArg Except.ok (Script.linesDown_newlinesBetween hle hstart)
  · rw [lineInLabel, hlabel, Option.map_some, Option.getD_some, Nat.max_eq_left hle,
      Nat.min_eq_left (Nat.le_of_lt hsize), hcount]

/-- **The indexes of the label table agree.** The table of a script holds the first definition of
each name, in the order of addresses and of lines. A name, in any case, is looked up among them. An
address has the same label as its line, the greatest one at or before it or else the first. Each
line from the first label to the end of the script is in the section of one label, and no other line
is in a section. Each line of a section is found from its label and leads back to it. -/
theorem indexes_agree (script : Script) :
    let table := (build script).1
    (∀ name start line,
      (∃ label ∈ table.labels,
          label.name = name ∧ label.start = start ∧ label.startLine = line) ↔
        script.DefinesFirst start name ∧ script.newlinesBetween 0 start = line) ∧
    table.labels.Pairwise (fun a b => a.start < b.start ∧ a.startLine < b.startLine) ∧
    (∀ name label, table.byName name = .ok label ↔
      label ∈ table.labels ∧ label.name = Label.key name.toList) ∧
    (∀ addr ≤ script.size,
      table.byAddress? addr = table.byLine? (script.newlinesBetween 0 addr) ∧
      ∀ label, table.byAddress? addr = some label ↔ table.Nearest addr label) ∧
    (∀ line, ((∃! label, label ∈ table.labels ∧ label.Covers line) ↔ InSections script line) ∧
      ((∃ label ∈ table.labels, label.Covers line) ↔ InSections script line)) ∧
    ∀ label ∈ table.labels, ∀ k < label.lineCount,
      ∃ addr, table.lineAddress script label.name k = .ok addr ∧
        script.LineAt (label.startLine + k) addr ∧ table.byAddress? addr = some label ∧
        table.lineInLabel script addr = k := by
  refine ⟨fun name start line => exists_label_iff, ?_, fun name label => byName_eq_ok_iff, ?_, ?_,
    fun label hmem k => lineAddress_of_lt hmem⟩
  · exact List.pairwise_and_iff.mpr ⟨sorted_build script, sorted_startLine_build script⟩
  · exact fun addr _ =>
      ⟨byAddress?_eq_byLine? script addr, fun label => byAddress?_eq_some_iff (sorted_build script)⟩
  · refine fun line => ⟨⟨fun h => ?_, fun h => ?_⟩, exists_covers_iff⟩
    · obtain ⟨label, ⟨hmem, hcovers⟩, -⟩ := h
      exact exists_covers_iff.mp ⟨label, hmem, hcovers⟩
    · obtain ⟨label, hmem, hcovers⟩ := exists_covers_iff.mpr h
      exact ⟨label, ⟨hmem, hcovers⟩, fun other ⟨hmem', hcovers'⟩ =>
        eq_of_covers hmem' hmem hcovers' hcovers⟩

/-- Sections of an indented label and of one after an empty line. The label that is defined once
more has no section of its own. -/
example : (build ⟨(Bytes.ofText "game\n  *Start\n\n*mid\nend\n*START\nend").toArray, .utf8⟩).1.labels =
    [⟨"start", 5, 1, 2⟩, ⟨"mid", 15, 3, 4⟩] := by decide +kernel

end LabelTable

end NovelScript
