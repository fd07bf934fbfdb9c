import NovelScript.Proofs.Operand.Scanning

/-!
# Readers of operands stay inside the script and never go back

A reader that is started at an address of the script leaves its position at an address of the
script that is not before the one it started at, whether it succeeds or fails. A reference that is
read takes at least its sigil.
-/

namespace NovelScript.Operand

open NovelScript.Action (Keeps Reaches)

/-- The position is an address of the script, at or after `start`. -/
structure Inside (script : Script) (start : Nat) (cursor : Cursor) : Prop where
  /-- It is not before the start. -/
  ge : start ≤ cursor.pos
  /-- It is an address of the script. -/
  le : cursor.pos ≤ script.size

variable {script : Script} {start : Nat} {α : Type}

private theorem keeps_inside {read : Reader α}
    (h : Keeps (At fun pos => start ≤ pos ∧ pos ≤ script.size) read) :
    Keeps (Inside script start) read := by
  intro c hc
  have hstart : At (fun pos => start ≤ pos ∧ pos ≤ script.size) c := ⟨hc.ge, hc.le⟩
  exact ⟨(h hstart).1, (h hstart).2⟩

/-- Where a reader that succeeds has come to. -/
theorem inside_of_run_eq_ok {read : Reader α} {pos : Nat} {value : α} {after : Cursor}
    (hread : Keeps (Inside script pos) read) (hpos : pos ≤ script.size)
    (hrun : read.run { pos } = .ok value after) : Inside script pos after := by
  have hstart : Inside script pos { pos } := ⟨Nat.le_refl pos, hpos⟩
  have hafter := hread hstart
  rwa [Action.after_of_ok (show read { pos } = _ from hrun)] at hafter

namespace Scope

variable (scope : Scope)

private theorem admits_inside (start : Nat) :
    scope.Admits (fun pos => start ≤ pos ∧ pos ≤ scope.script.size) fun _ => True where
  scans := (scope.script.scans_inside start).line scope.narrow
  slice _ _ := trivial
  str _ := trivial
  aliases _ := trivial
  append _ _ := trivial

/-- An integer expression is read inside the script and not backwards. -/
theorem keeps_int : Keeps (Inside scope.script start) scope.int :=
  keeps_inside (scope.admits_inside start).keeps_int

/-- So is a reference to a variable. -/
theorem keeps_varRef : Keeps (Inside scope.script start) scope.varRef :=
  keeps_inside (scope.admits_inside start).keeps_varRef

/-- So is a string expression. -/
theorem keeps_str : Keeps (Inside scope.script start) scope.str :=
  keeps_inside (scope.admits_inside start).gives_str.keeps

/-- So is a label. -/
theorem keeps_label : Keeps (Inside scope.script start) scope.label :=
  keeps_inside (scope.admits_inside start).keeps_label

/-- So is a bare name. -/
theorem keeps_name : Keeps (Inside scope.script start) scope.name :=
  keeps_inside (scope.admits_inside start).keeps_name

/-! ## References -/

/-- A byte that is passed over counts. -/
theorem reaches_eat {b : UInt8} :
    Reaches (At fun pos => start ≤ pos ∧ pos ≤ scope.script.size)
      (fun eaten => At fun pos => (if eaten then start + 1 else start) ≤ pos ∧
        pos ≤ scope.script.size) (scope.eat b) := by
  refine reaches_position fun pos hpos => .ite (fun hat => ?_) fun _ => .pure fun _ hc => hc
  refine .bind (.modify fun _ _ => ?_) fun _ => .pure fun _ hc => hc
  exact ⟨Nat.succ_le_succ hpos.1, Script.lt_size_of_isAt hat⟩

/-- A reference takes at least its sigil. -/
theorem reaches_intRef :
    Reaches (At fun pos => start ≤ pos ∧ pos ≤ scope.script.size)
      (fun _ => At fun pos => start + 1 ≤ pos ∧ pos ≤ scope.script.size) scope.intRef := by
  refine reaches_position fun pos hpos => ?_
  rw [show scope.callBound pos = 4 * (scope.script.size - pos) + 7 + 1 from rfl, intRefWithin]
  have hkeeps := (scope.admits_inside (start + 1)).expressionsKeep
    (4 * (scope.script.size - pos) + 7)
  refine .bind (scope.admits_inside start).keeps_skipBlanks.reaches fun _ => ?_
  refine .bind scope.reaches_eat fun isInt => .ite (fun hint => ?_) fun hint => ?_
  · rw [hint]
    refine .bind hkeeps.indexTerm.reaches fun n => .ofExcept_bind fun slot _ => ?_
    exact .pure fun _ hc => hc
  · rw [if_neg hint]
    refine .bind scope.reaches_eat fun isArray => .ite (fun harray => ?_) fun _ => .throw _
    rw [harray]
    refine .bind hkeeps.indexTerm.reaches fun no => ?_
    refine .bind (scope.admits_inside (start + 1)).keeps_skipBlanks.reaches fun _ => ?_
    exact .bind (hkeeps.subscripts _).reaches fun indices => .pure fun _ hc => hc

/-- So does a reference to a string variable. -/
theorem reaches_strIndex :
    Reaches (At fun pos => start ≤ pos ∧ pos ≤ scope.script.size)
      (fun _ => At fun pos => start + 1 ≤ pos ∧ pos ≤ scope.script.size) scope.strIndex := by
  refine .bind scope.reaches_eat fun isStr => .ite (fun hstr => ?_) fun _ => .throw _
  rw [hstr]
  exact .bind (scope.admits_inside (start + 1)).keeps_index.reaches fun n => .ofExcept

/-- A reference to a variable of any kind takes at least its sigil. -/
theorem reaches_varRef (scope : Scope) {start : Nat} :
    Reaches (At fun pos => start ≤ pos ∧ pos ≤ scope.script.size)
      (fun _ => At fun pos => start + 1 ≤ pos ∧ pos ≤ scope.script.size) scope.varRef := by
  refine .bind (scope.admits_inside start).keeps_skipBlanks.reaches fun _ => ?_
  refine .bind scope.reaches_eat fun isStr => .ite (fun hstr => ?_) fun hstr => ?_
  · rw [hstr]
    refine .bind (scope.admits_inside (start + 1)).keeps_index.reaches fun n => ?_
    exact .bind (scope.admits_inside (start + 1)).keeps_skipBlanks.reaches fun _ =>
      .ofExcept_bind fun slot _ => .pure fun _ hc => hc
  · rw [if_neg hstr]
    refine .bind scope.reaches_intRef fun target => ?_
    exact .bind (scope.admits_inside (start + 1)).keeps_skipBlanks.reaches fun _ => .pure fun _ hc => hc

/-- An assignment takes at least a byte. -/
theorem reaches_assignment (scope : Scope) {start : Nat} :
    Reaches (At fun pos => start ≤ pos ∧ pos ≤ scope.script.size)
      (fun _ => At fun pos => start + 1 ≤ pos ∧ pos ≤ scope.script.size) scope.assignment := by
  have hadmits := scope.admits_inside (start + 1)
  refine .bind scope.reaches_varRef fun target => .bind hadmits.keeps_skipBlanks.reaches fun _ => ?_
  refine .bind (hadmits.keeps_eat (by decide)).reaches fun equals => .doUnless fun _ => ?_
  refine .bind hadmits.keeps_skipBlanks.reaches fun _ => .ite (fun _ => ?_) fun _ => ?_
  · exact .bind hadmits.gives_str.keeps.reaches fun _ => .pure fun _ hc => hc
  · exact .bind hadmits.keeps_int.reaches fun _ => .pure fun _ hc => hc

/-! ## The number of terms -/

/-- Every further term of a string expression takes a byte, so that the bound on their number is
never reached: any two bounds that exceed the number of bytes left lead to the same. -/
theorem strTail_eq_of_size_lt (scope : Scope) {terms terms' : Nat} {c : Cursor} (front : Bytes)
    (hpos : c.pos ≤ scope.script.size) (hterms : scope.script.size < c.pos + terms)
    (hterms' : scope.script.size < c.pos + terms') :
    scope.strTail terms front c = scope.strTail terms' front c := by
  induction terms generalizing terms' front c with
  | zero => exact absurd hpos (by omega)
  | succ terms ih =>
    obtain ⟨terms', rfl⟩ : ∃ n, terms' = n + 1 := ⟨terms' - 1, by omega⟩
    have hadmits := scope.admits_inside c.pos
    refine Action.bind_congr_of_ok fun _ c₁ hskip => Action.bind_congr_of_ok fun eaten c₂ heat => ?_
    cases eaten with
    | false => rfl
    | true =>
      have hplus : c.pos + 1 ≤ c₂.pos ∧ c₂.pos ≤ scope.script.size :=
        scope.reaches_eat (hadmits.keeps_skipBlanks.reaches ⟨Nat.le_refl _, hpos⟩ hskip) heat
      refine Action.bind_congr_of_ok fun _ c₃ hskip' => ?_
      refine Action.bind_congr_of_ok fun term c₄ hterm => ?_
      have hbehind := scope.admits_inside (c.pos + 1)
      have hafter : c.pos + 1 ≤ c₄.pos ∧ c₄.pos ≤ scope.script.size :=
        hbehind.gives_strTerm.keeps.reaches (hbehind.keeps_skipBlanks.reaches hplus hskip') hterm
      exact ih (front ++ term) hafter.2 (by omega) (by omega)

end Scope

end NovelScript.Operand
