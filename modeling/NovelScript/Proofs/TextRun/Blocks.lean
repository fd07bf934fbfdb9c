import NovelScript.Machine.Step
import NovelScript.Proofs.Machine.Operands
import NovelScript.Proofs.Operand.SameAssignment
import NovelScript.Proofs.TextRun.Elements

/-!
# Blocks in text

A block in text does what its assignments do as statements, one after another. Statements read their
operands in the machine, one by one, and blocks read whole assignments in the text; what both read
is an assignment in the same words, and so they come to the same end. In narrow mode of the
double-byte encoding, a block may see the end of a literal where a statement sees a half of a
character.
-/

namespace NovelScript

/-- Blanks in front of a sigil end there. -/
theorem Byte.isBlank_of_isSigil {b : UInt8} (h : isSigil b = true) : isBlank b = false := by
  simp only [isSigil, Bool.or_eq_true, beq_iff_eq] at h
  rcases h with (rfl | rfl) | rfl <;> decide

/-- A brace in front of a sigil begins a block. -/
theorem Script.element_of_block {s : Script} {pos : Nat} (hb : s.byte? pos = some Byte.leftBrace)
    (hstart : s.startsBlock pos = true) (buttonOpen : Bool) : s.element buttonOpen pos = .block := by
  rw [element, hb]
  simp only [hstart, Bool.and_true]
  rfl

namespace Machine

open NovelScript.Operand (Scope Cursor)

/-! ## Assignments as statements -/

/-- The operands of an assignment are all of `text`, and executing it leads to the second machine
without a warning. -/
structure Assigns (text : Bytes) (m m' : Machine) : Prop where
  /-- The statement is executed. -/
  run : execute .mov m = .ok .advance m'
  /-- There is no warning. -/
  quiet : m'.warningCount = m.warningCount
  /-- The text begins with the target. -/
  stands : ∃ rest, m.script.ahead (m.script.skipBlanks m.cursor) = text ++ rest
  /-- The equals sign follows the target. -/
  equals : ∃ target after, m.scope.varRef ⟨m.cursor, []⟩ = .ok target after ∧
    m.script.isAt after.pos Byte.equals = true
  /-- The text is passed over. -/
  passed : m'.pc = m.script.skipBlanks m.cursor + text.length
  /-- Behind it the statement ends. -/
  ended : m.script.atStatementEnd (m.script.skipBlanks m.cursor + text.length) = true
  /-- No comma follows the value. -/
  comma : ∀ k : Nat, text[k]? = some Byte.comma → ∃ b ∈ text.drop (k + 1), Byte.isBlank b = false

variable {m m' : Machine} {text : Bytes}

/-- An equals sign is no comma, so that nothing is passed over in front of it. -/
theorem behindOperand_of_equals {s : Script} {pos : Nat} (h : s.isAt pos Byte.equals = true) :
    s.behindOperand pos = pos := by
  have hbyte : s.byte? pos = some Byte.equals := beq_iff_eq.mp h
  have hblank : s.skipBlanks pos = pos :=
    Script.advanceWhile_eq_self (by rw [Script.holdsAt, hbyte]; rfl)
  have hcomma : s.eat Byte.comma pos = pos := by
    rw [Script.eat, Script.isAt, hbyte]
    rfl
  rw [Script.behindOperand, hblank, hcomma, hblank]

/-- The equals sign is passed over, and the blanks behind it. -/
theorem eatToken_equals (h : m.script.isAt m.cursor Byte.equals = true) :
    eatToken [Byte.equals] m = .ok true { m with pc := m.script.skipBlanks (m.cursor + 1) } := by
  have hblank : m.script.skipBlanks m.cursor = m.cursor :=
    Script.advanceWhile_eq_self (by rw [Script.holdsAt, beq_iff_eq.mp h]; rfl)
  have hstarts : m.script.startsWith [Byte.equals] m.cursor = true := by
    rw [Script.startsWith, h]
    rfl
  rw [eatToken, Action.get_bind, hblank, hstarts, if_pos rfl]
  rfl

/-- A value of the kind of the target is read and written. -/
theorem exists_valueFor {target : VariableRef} (hblank : m.script.skipBlanks m.cursor = m.cursor)
    (h : (do
      if target.isStr then
        let value ← readStr
        writeStr target value
      else if (← get).atString then throw (.mismatch .integerExpression .string)
      else
        let value ← readInt
        writeInt target value
      return .advance : Run Outcome) m = .ok .advance m') :
    ∃ value after, m.scope.valueFor target ⟨m.cursor, []⟩ = .ok (target, value) after ∧
      m.store.write target value = .ok m'.store ∧ m'.pc = m.script.behindOperand after.pos ∧
      m'.warningCount = m.warningCount + after.warnings.length := by
  have hskip : m.scope.skipBlanks ⟨m.cursor, []⟩ = .ok () ⟨m.cursor, []⟩ := by
    show EStateM.Result.ok () (⟨m.script.skipBlanks m.cursor, []⟩ : Cursor) = _
    rw [hblank]
  rw [Scope.valueFor, Action.bind_of_ok hskip]
  cases hkind : target.isStr with
  | true =>
    rw [hkind, if_pos rfl] at h
    obtain ⟨value, m₁, hvalue, h⟩ := Action.exists_of_run_eq_ok h
    obtain ⟨after, journal, hread, -, rfl⟩ := operand_eq_ok hvalue
    obtain ⟨_, m₂, hwrite, h⟩ := Action.exists_of_run_eq_ok h
    obtain ⟨store, hstore, rfl⟩ := updateStore_eq_ok hwrite
    cases h
    rw [if_pos rfl, Action.bind_of_ok hread]
    exact ⟨.str value, after, rfl, hstore, rfl, rfl⟩
  | false =>
    rw [hkind, if_neg Bool.false_ne_true, Action.get_bind] at h
    split at h
    · obtain ⟨_, _, hthrow, -⟩ := Action.exists_of_run_eq_ok h
      cases hthrow
    · obtain ⟨value, m₁, hvalue, h⟩ := Action.exists_of_run_eq_ok h
      obtain ⟨after, journal, hread, -, rfl⟩ := operand_eq_ok hvalue
      obtain ⟨_, m₂, hwrite, h⟩ := Action.exists_of_run_eq_ok h
      obtain ⟨store, hstore, rfl⟩ := updateStore_eq_ok hwrite
      cases h
      rw [if_neg Bool.false_ne_true, Action.bind_of_ok hread]
      exact ⟨.int value, after, rfl, hstore, rfl, rfl⟩

/-- Behind the target and the equals sign a value is read and written. -/
theorem exists_value_of_assign {target : VariableRef} {found : Cursor}
    (hfound : m.scope.varRef ⟨m.cursor, []⟩ = .ok target found)
    (hequals : m.script.isAt found.pos Byte.equals = true) (hrun : assign m = .ok .advance m') :
    ∃ value after,
      m.scope.valueFor target ⟨m.script.skipBlanks (found.pos + 1), []⟩ = .ok (target, value) after ∧
      m.store.write target value = .ok m'.store ∧ m'.pc = m.script.behindOperand after.pos ∧
      m'.warningCount = m.warningCount + found.warnings.length + after.warnings.length := by
  obtain ⟨target', m₁, hread, hrun⟩ := Action.exists_of_run_eq_ok hrun
  obtain ⟨found', journal, hfound', -, rfl⟩ := operand_eq_ok hread
  obtain ⟨rfl, rfl⟩ := EStateM.Result.ok.inj (hfound.symm.trans hfound')
  have hsize : found.pos < m.script.size := Script.lt_size_of_isAt hequals
  rw [behindOperand_of_equals hequals] at hrun
  let atEquals : Machine := { m with
    pc := found.pos, warningCount := m.warningCount + found.warnings.length, journal }
  have hcursor : atEquals.cursor = found.pos := Nat.min_eq_left (Nat.le_of_lt hsize)
  have heat := eatToken_equals (m := atEquals) (by rw [hcursor]; exact hequals)
  rw [Action.bind_of_ok (Action.discard_of_ok heat), hcursor] at hrun
  let atValue : Machine := { atEquals with pc := m.script.skipBlanks (found.pos + 1) }
  have hvalue : atValue.cursor = m.script.skipBlanks (found.pos + 1) :=
    Nat.min_eq_left (Script.skipBlanks_le_size hsize)
  have hblank : m.script.skipBlanks atValue.cursor = atValue.cursor := by
    rw [hvalue, Script.skipBlanks_skipBlanks]
  rw [← hvalue]
  exact exists_valueFor (m := atValue) hblank hrun

/-- The operands of an assignment are a target, an equals sign and a value, and the value is
assigned. -/
theorem Assigns.exists_assignment (h : m.Assigns text m') :
    ∃ target value after, m.scope.assignment ⟨m.cursor, []⟩ = .ok (target, value) after ∧
      after.warnings = [] ∧ m'.pc = m.script.behindOperand after.pos ∧
      m.store.write target value = .ok m'.store := by
  obtain ⟨target, found, hfound, hequals⟩ := h.equals
  obtain ⟨value, after, hvalue, hwrite, hpc, hcount⟩ := exists_value_of_assign hfound hequals h.run
  rw [h.quiet] at hcount
  have hfoundQuiet : found.warnings = [] := List.eq_nil_of_length_eq_zero (by omega)
  have hafterQuiet : after.warnings = [] := List.eq_nil_of_length_eq_zero (by omega)
  refine ⟨target, value, after, ?_, hafterQuiet, hpc, hwrite⟩
  have hskip : m.scope.skipBlanks found = .ok () found := by
    show EStateM.Result.ok () (⟨m.script.skipBlanks found.pos, found.warnings⟩ : Cursor) = _
    rw [Script.skipBlanks, Script.advanceWhile_eq_self
      (by rw [Script.holdsAt, beq_iff_eq.mp hequals]; rfl)]
  have heat : m.scope.eat Byte.equals found = .ok true ⟨found.pos + 1, []⟩ := by
    rw [Scope.eat_eq, show m.scope.script.isAt found.pos Byte.equals = true from hequals, if_pos rfl,
      hfoundQuiet]
  rw [Scope.assignment_eq, Action.bind_of_ok hfound, Action.bind_of_ok hskip, Action.bind_of_ok heat,
    if_pos rfl, Scope.valueFor_skipBlanks]
  exact hvalue

/-- The text of an assignment begins with a sigil. -/
theorem Assigns.begins (h : m.Assigns text m') :
    ∃ sigil more, text = sigil :: more ∧ Byte.isSigil sigil = true := by
  obtain ⟨rest, hstands⟩ := h.stands
  obtain ⟨target, after, hread, -⟩ := h.equals
  have hsigil : m.script.holdsAt (m.script.skipBlanks m.cursor) Byte.isSigil = true :=
    Scope.holdsAt_of_varRef hread
  obtain ⟨sigil, hbyte, hsigil⟩ := (Option.any_eq_true _ _).mp hsigil
  cases text with
  | nil =>
    have hended : m.script.atStatementEnd (m.script.skipBlanks m.cursor) = true := h.ended
    rw [Script.atStatementEnd, hbyte] at hended
    simp only [Bool.or_eq_true, beq_iff_eq] at hended
    rcases hended with (rfl | rfl) | rfl <;> cases hsigil
  | cons b more =>
    rw [Script.byte?_eq_head?, hstands] at hbyte
    cases hbyte
    exact ⟨_, more, rfl, hsigil⟩

end Machine

/-! ## The same assignments in a text -/

namespace TextReader.Setup

open NovelScript.Operand (Scope Cursor Level)
open NovelScript.Machine (Assigns)

variable {setup : Setup} {p : Progress} {m m' : Machine} {text rest : Bytes} {store : Store}

/-- The text in a block is read as it is in a statement, with the same variables and constants. -/
theorem literalsAlike (hencoding : setup.script.encoding = m.script.encoding)
    (haliases : setup.aliases = m.aliases) (hstore : p.store = m.store)
    (hliterals : setup.script.encoding.KeepsLiterals p.narrow text) (h : m.Assigns text m')
    (hahead : setup.script.ahead p.pos = text ++ rest) (hrest : Script.EndsExpression rest) :
    m.scope.LiteralsAlike (setup.scope p) (m.script.skipBlanks m.cursor) p.pos text.length := by
  obtain ⟨behind, hstands⟩ := h.stands
  obtain ⟨sigil, more, htext, -⟩ := h.begins
  have hbehind : Script.EndsExpression behind := by
    rw [← Script.ahead_add_length hstands]
    exact Script.endsExpression_of_atStatementEnd h.ended
  have hpos : p.pos ≤ setup.script.size := by
    have hlength := congrArg List.length hahead
    rw [Script.length_ahead, htext, List.cons_append, List.length_cons] at hlength
    omega
  exact {
    text := Script.sameText_of_ahead hstands hahead hbehind hrest
      (Script.skipBlanks_le_size (Nat.min_le_right _ _)) hpos
    store := hstore
    aliases := haliases
    wide := rfl
    encoding := hencoding
    literals := by
      have hslice : m.script.slice (m.script.skipBlanks m.cursor)
          (m.script.skipBlanks m.cursor + text.length) = text := Script.slice_append hstands
      show m.script.encoding.KeepsLiterals p.narrow (m.script.slice _ _)
      rw [hslice, ← hencoding]
      exact hliterals }

/-- Behind an assignment only blanks are passed over, since no comma follows it. -/
theorem skipBlanks_of_behindOperand (h : m.Assigns text m') {j : Nat}
    (hover : m.script.behindOperand (m.script.skipBlanks m.cursor + j) =
      m.script.skipBlanks m.cursor + text.length) :
    m.script.skipBlanks (m.script.skipBlanks m.cursor + j) =
      m.script.skipBlanks m.cursor + text.length := by
  obtain ⟨behind, hstands⟩ := h.stands
  generalize m.script.skipBlanks m.cursor = x at hover hstands
  have hle := m.script.le_skipBlanks (x + j)
  obtain ⟨k, hk⟩ := Nat.exists_eq_add_of_le (Nat.le_trans (Nat.le_add_right x j) hle)
  rw [Script.behindOperand, hk, Script.eat] at hover
  rw [hk]
  split at hover
  · next hat =>
    have hpassed := m.script.le_skipBlanks (x + k + 1)
    rw [Script.isAt, Script.byte?_add_of_ahead hstands (by omega), beq_iff_eq] at hat
    obtain ⟨b, hmem, hblank⟩ := h.comma k hat
    obtain ⟨i, hi⟩ := List.mem_iff_getElem?.mp hmem
    rw [List.getElem?_drop] at hi
    obtain ⟨hlt, -⟩ := List.getElem?_eq_some_iff.mp hi
    have hholds := Script.holdsAt_of_lt_advanceWhile (show x + k + 1 ≤ x + (k + 1 + i) by omega)
      (show x + (k + 1 + i) < m.script.skipBlanks (x + k + 1) by omega)
    rw [Script.holdsAt, Script.byte?_add_of_ahead hstands hlt, hi, Option.any_some, hblank] at hholds
    cases hholds
  · rwa [← hk, Script.skipBlanks_skipBlanks, hk] at hover

/-- The assignment of a statement is read in a block, and has the same effect. -/
theorem exists_operand_assignment (hencoding : setup.script.encoding = m.script.encoding)
    (haliases : setup.aliases = m.aliases) (hstore : p.store = m.store)
    (hliterals : setup.script.encoding.KeepsLiterals p.narrow text) (h : m.Assigns text m')
    (hahead : setup.script.ahead p.pos = text ++ rest) (hrest : Script.EndsExpression rest) :
    ∃ target value pos, setup.operand Scope.assignment p = .ok (target, value) { p with pos } ∧
      setup.script.skipBlanks pos = p.pos + text.length ∧
      p.store.write target value = .ok m'.store := by
  have halike := literalsAlike hencoding haliases hstore hliterals h hahead hrest
  obtain ⟨target, value, after, hrun, hquiet, hpc, hwrite⟩ := h.exists_assignment
  rw [Scope.assignment_skipBlanks] at hrun
  have hover := h.passed
  rw [hpc] at hover
  have hle := m.script.le_behindOperand after.pos
  have hinside : m.script.skipBlanks m.cursor ≤ m.script.size :=
    Script.skipBlanks_le_size (Nat.min_le_right _ _)
  obtain ⟨d, hrun', j, -, hjn, hafter, hd, hwarnings⟩ := halike.assignment (i := 0)
    (c := ⟨m.script.skipBlanks m.cursor, []⟩) (d := ⟨p.pos, []⟩)
    ⟨0, Nat.le_refl 0, Nat.zero_le _, rfl, rfl, rfl⟩
    (show Operand.At _ ⟨_, []⟩ from ⟨hinside, halike.literals⟩) hrun
    (by omega) hquiet
  rw [hafter] at hover
  obtain ⟨k, -, hkn, hk, hk'⟩ := halike.text.skipBlanks hjn
  have hblank := skipBlanks_of_behindOperand h hover
  have hend : k = text.length := by
    have hk : m.script.skipBlanks (m.script.skipBlanks m.cursor + j) = _ := hk
    omega
  refine ⟨target, value, d.pos, operand_of_ok ?_, ?_, hstore ▸ hwrite⟩
  · rw [hrun', ← hquiet, ← hwarnings]
  · rw [hd, ← hend]
    exact hk'

/-! ## Reading a block -/

/-- An assignment in a block is made, and the comma behind it is passed over. -/
theorem block_of_assigns {gap : Bytes} (hencoding : setup.script.encoding = m.script.encoding)
    (haliases : setup.aliases = m.aliases) (hstore : p.store = m.store)
    (hliterals : setup.script.encoding.KeepsLiterals p.narrow text) (h : m.Assigns text m')
    (hahead : setup.script.ahead p.pos = gap ++ (text ++ rest))
    (hgap : ∀ b ∈ gap, Byte.isBlank b = true) (hrest : Script.EndsExpression rest) (count : Nat) :
    setup.block (count + 1) p = setup.block count { p with
      pos := setup.script.eat Byte.comma (p.pos + gap.length + text.length), store := m'.store } := by
  obtain ⟨sigil, more, htext, hsigil⟩ := h.begins
  have hbehind := Script.ahead_add_length hahead
  have hbyte : setup.script.byte? (p.pos + gap.length) = some sigil := by
    rw [Script.byte?_eq_head?, hbehind, htext]
    rfl
  have hskip : setup.script.skipBlanks p.pos = p.pos + gap.length := by
    refine Script.advanceWhile_append hahead hgap ?_
    rw [htext]
    rintro b ⟨⟩
    exact Byte.isBlank_of_isSigil hsigil
  have hne : (sigil == Byte.rightBrace) = false ∧ (sigil == Byte.newline) = false := by
    simp only [Byte.isSigil, Bool.or_eq_true, beq_iff_eq] at hsigil
    rcases hsigil with (rfl | rfl) | rfl <;> decide
  obtain ⟨target, value, pos, hoperand, hpos, hwrite⟩ :=
    exists_operand_assignment (p := { p with pos := p.pos + gap.length }) hencoding haliases hstore
      hliterals h hbehind hrest
  rw [block, Action.get_bind, hskip,
    Action.bind_of_ok (show moveTo _ p = .ok () { p with pos := p.pos + gap.length } from rfl)]
  simp only [hbyte, hne, Bool.false_eq_true, if_false]
  rw [Action.bind_of_ok hoperand, Action.get_bind, Action.ofExcept_bind_of_ok hwrite,
    Action.modify_bind, hpos]

/-- A closing brace ends the block. -/
theorem block_of_rightBrace {gap : Bytes}
    (hahead : setup.script.ahead p.pos = gap ++ Byte.rightBrace :: rest)
    (hgap : ∀ b ∈ gap, Byte.isBlank b = true) (count : Nat) :
    setup.block (count + 1) p = .ok () { p with pos := p.pos + gap.length + 1 } := by
  have hbyte : setup.script.byte? (p.pos + gap.length) = some Byte.rightBrace := by
    rw [Script.byte?_eq_head?, Script.ahead_add_length hahead]
    rfl
  have hskip : setup.script.skipBlanks p.pos = p.pos + gap.length :=
    Script.advanceWhile_append hahead hgap (by rintro b ⟨⟩; rfl)
  rw [block, Action.get_bind, hskip,
    Action.bind_of_ok (show moveTo _ p = .ok () { p with pos := p.pos + gap.length } from rfl)]
  simp only [hbyte, beq_self_eq_true, if_true]
  rfl

/-- What stands behind the opening brace of a block with the given assignments. -/
inductive BlockText : List Bytes → Bytes → Prop where
  /-- The closing brace. -/
  | nil {gap : Bytes} (hgap : ∀ b ∈ gap, Byte.isBlank b = true) :
      BlockText [] (gap ++ [Byte.rightBrace])
  /-- A last assignment and the closing brace. -/
  | last {gap : Bytes} (text : Bytes) (hgap : ∀ b ∈ gap, Byte.isBlank b = true) :
      BlockText [text] (gap ++ (text ++ [Byte.rightBrace]))
  /-- An assignment, a comma, and the rest of the block. -/
  | more {gap block : Bytes} {texts : List Bytes} (text : Bytes)
      (hgap : ∀ b ∈ gap, Byte.isBlank b = true) (h : BlockText texts block) :
      BlockText (text :: texts) (gap ++ (text ++ Byte.comma :: block))

/-- The assignments are executed as statements one after another without a warning, each of them
with the variables that the one before it has left. -/
inductive AssignsAll (encoding : Encoding) (aliases : Aliases) :
    Store → List Bytes → Store → Prop where
  /-- There is nothing to execute. -/
  | nil (store : Store) : AssignsAll encoding aliases store [] store
  /-- An assignment is executed, and then the others. -/
  | cons {m m' : Machine} {text : Bytes} {texts : List Bytes} {store store' : Store}
      (hencoding : m.script.encoding = encoding) (haliases : m.aliases = aliases)
      (hstore : m.store = store) (h : m.Assigns text m')
      (hrest : AssignsAll encoding aliases m'.store texts store') :
      AssignsAll encoding aliases store (text :: texts) store'

variable {texts : List Bytes} {block : Bytes} {store' : Store}

private theorem BlockText.length_le (h : BlockText texts block) : texts.length ≤ block.length := by
  induction h with
  | nil => exact Nat.zero_le _
  | last text =>
    rw [List.length_append, List.length_append, List.length_singleton, List.length_singleton]
    omega
  | more text _ _ ih =>
    rw [List.length_append, List.length_append, List.length_cons, List.length_cons]
    omega

/-- Behind an opening brace with an assignment comes a sigil. -/
theorem BlockText.begins {encoding : Encoding} {aliases : Aliases} (h : BlockText texts block)
    (hall : AssignsAll encoding aliases store texts store') (hne : texts ≠ []) :
    ∃ gap sigil more, block = gap ++ sigil :: more ∧ (∀ b ∈ gap, Byte.isBlank b = true) ∧
      Byte.isSigil sigil = true := by
  cases h with
  | nil => exact absurd rfl hne
  | last text hgap | more text hgap =>
    cases hall with
    | cons _ _ _ h =>
      obtain ⟨sigil, more, rfl, hsigil⟩ := h.begins
      exact ⟨_, sigil, _, rfl, hgap, hsigil⟩

/-- Reading a block does what its assignments do one after another, and comes to the end of the
block. -/
theorem block_of_assignsAll (hblock : BlockText texts block)
    (hall : AssignsAll setup.script.encoding setup.aliases store texts store')
    (hstore : p.store = store)
    (hliterals : ∀ text ∈ texts, setup.script.encoding.KeepsLiterals p.narrow text)
    (hahead : setup.script.ahead p.pos = block ++ rest) {count : Nat} (hcount : texts.length < count) :
    setup.block count p = .ok () { p with pos := p.pos + block.length, store := store' } := by
  obtain ⟨count, rfl⟩ : ∃ n, count = n + 1 := ⟨count - 1, by omega⟩
  induction hblock generalizing p store count with
  | nil hgap =>
    rw [List.append_assoc] at hahead
    cases hall
    rw [block_of_rightBrace hahead hgap, List.length_append, List.length_singleton, Nat.add_assoc,
      ← hstore]
  | @last gap text hgap =>
    rw [List.append_assoc, List.append_assoc] at hahead
    cases hall with
    | cons hencoding haliases hbefore h hrest =>
      cases hrest
      have hassigned := fun count => block_of_assigns hencoding.symm haliases.symm
        (hstore.trans hbefore.symm) (hliterals _ List.mem_cons_self) h hahead hgap
        (by rintro b ⟨⟩; decide) count
      have hnext : setup.script.ahead (p.pos + gap.length + text.length) =
          Byte.rightBrace :: rest := Script.ahead_add_length (Script.ahead_add_length hahead)
      have heat : setup.script.eat Byte.comma (p.pos + gap.length + text.length) =
          p.pos + gap.length + text.length := by
        rw [Script.eat, Script.isAt_cons hnext]
        rfl
      obtain ⟨count, rfl⟩ : ∃ n, count = n + 1 := ⟨count - 1, by
        rw [List.length_singleton] at hcount
        omega⟩
      rw [hassigned, heat, block_of_rightBrace
        (show setup.script.ahead _ = [] ++ Byte.rightBrace :: rest from hnext)
        (List.forall_mem_nil _)]
      simp only [List.length_append, List.length_singleton, List.length_nil, Nat.add_assoc,
        Nat.add_zero]
  | @more gap block texts text hgap _ ih =>
    rw [List.append_assoc, List.append_assoc] at hahead
    obtain ⟨hliteralsHere, hliteralsRest⟩ := List.forall_mem_cons.mp hliterals
    cases hall with
    | cons hencoding haliases hbefore h hrest =>
      have hassigned := fun count => block_of_assigns hencoding.symm haliases.symm
        (hstore.trans hbefore.symm) hliteralsHere h hahead hgap (by rintro b ⟨⟩; decide) count
      have hnext : setup.script.ahead (p.pos + gap.length + text.length) =
          Byte.comma :: (block ++ rest) := Script.ahead_add_length (Script.ahead_add_length hahead)
      have heat : setup.script.eat Byte.comma (p.pos + gap.length + text.length) =
          p.pos + gap.length + text.length + 1 := by
        rw [Script.eat, Script.isAt_cons hnext]
        rfl
      rw [List.length_cons] at hcount
      obtain ⟨count, rfl⟩ : ∃ n, count = n + 1 := ⟨count - 1, by omega⟩
      rw [hassigned, heat, ih (p := { p with pos := _, store := _ }) hrest rfl hliteralsRest
        (Script.ahead_succ hnext) count (by omega)]
      simp only [List.length_append, List.length_cons, Nat.add_assoc, Nat.add_comm 1]

/-- **A block in text does what its assignments do as statements, one after another.** It gives no
warning, and text goes on behind the closing brace. Without any assignment a brace is a character,
and no block. -/
theorem block_assigns_in_order (hblock : BlockText texts block)
    (hall : AssignsAll setup.script.encoding setup.aliases p.store texts store')
    (hliterals : ∀ text ∈ texts, setup.script.encoding.KeepsLiterals p.narrow text)
    (hahead : setup.script.ahead p.pos = Byte.leftBrace :: (block ++ rest)) :
    setup.block (setup.script.size - p.pos + 1) { p with pos := p.pos + 1 } =
        .ok () { p with pos := p.pos + 1 + block.length, store := store' } ∧
      (texts ≠ [] → setup.element p =
        .ok none { p with pos := p.pos + 1 + block.length, store := store' }) := by
  have hcount : texts.length < setup.script.size - p.pos + 1 := by
    have hlength := congrArg List.length hahead
    rw [Script.length_ahead, List.length_cons, List.length_append] at hlength
    have hle := hblock.length_le
    omega
  have hread := block_of_assignsAll (p := { p with pos := p.pos + 1 }) hblock hall rfl hliterals
    (Script.ahead_succ hahead) hcount
  refine ⟨hread, fun hne => ?_⟩
  have hbyte : setup.script.byte? p.pos = some Byte.leftBrace := by
    rw [Script.byte?_eq_head?, hahead]
    rfl
  have hstarts : setup.script.startsBlock p.pos = true := by
    obtain ⟨gap, sigil, more, rfl, hgap, hsigil⟩ := hblock.begins hall hne
    have hbehind := Script.ahead_succ hahead
    rw [List.append_assoc] at hbehind
    have hskip : setup.script.skipBlanks (p.pos + 1) = p.pos + 1 + gap.length :=
      Script.advanceWhile_append hbehind hgap (by rintro b ⟨⟩; exact Byte.isBlank_of_isSigil hsigil)
    rw [Script.startsBlock, hskip, Script.holdsAt_eq, Script.ahead_add_length hbehind]
    exact hsigil
  rw [element_eq, Script.element_of_block hbyte hstarts, act, Action.get_bind,
    Action.bind_of_ok (show moveTo _ p = .ok () { p with pos := p.pos + 1 } from rfl),
    Action.bind_of_ok hread]
  rfl

/-- A machine in front of a line in the double-byte encoding. -/
def atLine (line : Bytes) (store : Store) : Machine :=
  { Machine.fresh ⟨(line ++ [Byte.newline]).toArray, .shiftJis⟩ {} .absent with store }

/-- The machine behind the assignment of such a line. -/
def behindLine (line : Bytes) (store : Store) : Machine :=
  Action.after (Machine.execute .mov) (atLine line store)

/-- An assignment without blanks around it and without a comma, in a line of its own. -/
theorem assigns_line (target : VariableRef) (after : Cursor)
    (hrun : (match Machine.execute .mov (atLine text store) with
      | .ok .advance m => m.pc == text.length && m.warningCount == 0
      | _ => false) = true)
    (hread : (atLine text store).scope.varRef ⟨0, []⟩ = .ok target after)
    (hequals : (atLine text store).script.isAt after.pos Byte.equals = true)
    (hblank : Byte.isBlank (text.headD Byte.newline) = false) (hcomma : Byte.comma ∉ text) :
    Assigns text (atLine text store) (behindLine text store) := by
  have hahead : (atLine text store).script.ahead 0 = text ++ [Byte.newline] := rfl
  have hstart : (atLine text store).script.skipBlanks (atLine text store).cursor = 0 := by
    refine Script.advanceWhile_eq_self ?_
    rw [Script.holdsAt_eq]
    cases text with
    | nil => rfl
    | cons b more => exact hblank
  cases hexecute : Machine.execute .mov (atLine text store) with
  | error fault m =>
    rw [hexecute] at hrun
    cases hrun
  | ok outcome m =>
    rw [hexecute] at hrun
    have hbehind : behindLine text store = m := Action.after_of_ok hexecute
    cases outcome with
    | advance =>
      obtain ⟨hpc, hcount⟩ := Bool.and_eq_true_iff.mp hrun
      rw [hbehind]
      exact {
        run := hexecute
        quiet := beq_iff_eq.mp hcount
        stands := ⟨[Byte.newline], by rw [hstart, hahead]⟩
        equals := ⟨target, after, hread, hequals⟩
        passed := by rw [hstart, Nat.zero_add]; exact beq_iff_eq.mp hpc
        ended := by
          rw [hstart, Script.atStatementEnd, Script.byte?_eq_head?, Script.ahead_add_length hahead]
          rfl
        comma := fun k hk => absurd (List.mem_of_getElem? hk) hcomma }
    | skipLine | stay | restart | stop => cases hrun

/-- A line of text with a block in the double-byte encoding. -/
def blockLine (block : Bytes) : Setup where
  script := ⟨(Byte.leftBrace :: (block ++ [Byte.newline])).toArray, .shiftJis⟩
  aliases := {}
  style := { clickMarkers := [], wideDigits := false, numberPad := 0 }

/-- The assignment `%1=2`. -/
def numberText : Bytes :=
  Bytes.ofText "%1=2"

/-- The assignment `$%1="あ"`. -/
def letterText : Bytes :=
  Bytes.ofText "$%1=\"" ++ [0x82, 0xa0] ++ Bytes.ofText "\""

/-- The block `{%1=2, $%1="あ"}`, from behind its brace on. -/
def letterBlock : Bytes :=
  numberText ++ Byte.comma :: (Byte.space :: (letterText ++ [Byte.rightBrace]))

/-- The variables behind the first of these assignments. -/
def numbered : Store :=
  (behindLine numberText (.blank 4 0)).store

/-- In narrow mode, too, this block gives `$2` a letter: the number is that which the first
assignment has given to `%1`. -/
theorem block_assigns_letter :
    BlockText [numberText, letterText] letterBlock ∧
      AssignsAll .shiftJis {} (.blank 4 0) [numberText, letterText]
        (behindLine letterText numbered).store ∧
      (behindLine letterText numbered).store.str 2 = [0x82, 0xa0] ∧
      (blockLine letterBlock).element { pos := 0, narrow := true, store := .blank 4 0 } =
        .ok none { pos := 16, narrow := true, store := (behindLine letterText numbered).store } := by
  have hblock : BlockText [numberText, letterText] letterBlock :=
    .more numberText (show ∀ b ∈ ([] : Bytes), _ from nofun)
      (.last letterText (show ∀ b ∈ [Byte.space], _ from List.all_eq_true.mp (by decide)))
  have hnumber : Assigns numberText (atLine numberText (.blank 4 0))
      (behindLine numberText (.blank 4 0)) :=
    assigns_line (.int 1) ⟨2, []⟩ (by decide +kernel) (by decide +kernel)
      (by decide +kernel) (by decide +kernel) (by decide +kernel)
  have hletter : Assigns letterText (atLine letterText numbered) (behindLine letterText numbered) :=
    assigns_line (.str 2) ⟨3, []⟩ (by decide +kernel) (by decide +kernel)
      (by decide +kernel) (by decide +kernel) (by decide +kernel)
  have hall : AssignsAll .shiftJis {} (.blank 4 0) [numberText, letterText]
      (behindLine letterText numbered).store :=
    .cons (m := atLine numberText _) rfl rfl rfl hnumber
      (.cons (m := atLine letterText _) rfl rfl rfl hletter (.nil _))
  have hahead : (blockLine letterBlock).script.ahead 0 =
      Byte.leftBrace :: (letterBlock ++ [Byte.newline]) := rfl
  refine ⟨hblock, hall, by decide +kernel, ?_⟩
  refine (block_assigns_in_order (p := { pos := 0, narrow := true, store := .blank 4 0 }) hblock hall
    ?_ hahead).2 (List.cons_ne_nil _ _)
  intro text htext _ _
  revert text
  decide +kernel

/-- The assignment ``$1=`チ` ``, where the second byte of the character is a backquote. -/
def quotedText : Bytes :=
  Bytes.ofText "$1=\x60" ++ [0x83, 0x60] ++ [Byte.backquote]

/-- In narrow mode the block with this assignment fails, and so does the run of text. -/
theorem block_fails_in_narrow_mode :
    BlockText [quotedText] (quotedText ++ [Byte.rightBrace]) ∧
      AssignsAll .shiftJis {} (.blank 4 0) [quotedText] (behindLine quotedText (.blank 4 0)).store ∧
      (read (blockLine (quotedText ++ [Byte.rightBrace])) (.blank 4 0) 0 true).1 =
        .error (.mismatch .integerVariable .nonVariable) := by
  have hquoted : Assigns quotedText (atLine quotedText (.blank 4 0))
      (behindLine quotedText (.blank 4 0)) :=
    assigns_line (.str 1) ⟨2, []⟩ (by decide +kernel) (by decide +kernel)
      (by decide +kernel) (by decide +kernel) (by decide +kernel)
  exact ⟨.last quotedText (show ∀ b ∈ ([] : Bytes), _ from nofun),
    .cons (m := atLine quotedText _) rfl rfl rfl hquoted (.nil _), by decide +kernel⟩

end TextReader.Setup

end NovelScript
