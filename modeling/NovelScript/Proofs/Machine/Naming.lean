import NovelScript.Proofs.Expression.Reading
import NovelScript.Proofs.Label
import NovelScript.Proofs.Machine.Upcoming
import NovelScript.Proofs.NameLog

/-!
# Labels by their names

The name of a label is read in three places: on the lines of the script when the label table is
built, in the statement that execution comes to, and in the operand of a jump. The table takes any
name bytes, but the other two want a name that does not begin with a digit. All three agree on a
label exactly if its name does not.
-/

namespace NovelScript

open Operand

/-! ## Labels as they are written -/

namespace Label

/-- Whether a name begins with a digit. -/
def isNumbered (name : String) : Bool :=
  name.toList.head?.any Char.isDigit

end Label

namespace Byte

/-- The character of a name byte is a digit exactly if no name starts with the byte. -/
theorem isDigit_nameChar {b : UInt8} (h : isNameByte b = true) :
    (Char.ofNat (lower b).toNat).isDigit = !isNameStart b := by
  have hall : ∀ n : Fin 256, isNameByte (UInt8.ofFin n) = true →
      (Char.ofNat (lower (UInt8.ofFin n)).toNat).isDigit = !isNameStart (UInt8.ofFin n) := by
    decide +kernel
  exact hall b.toFin h

end Byte

namespace Script

variable {s : Script} {pos : Nat} {written : Bytes}

/-- The name that readers find, if there is one. -/
theorem name?_of_ahead {rest : Bytes} (hahead : s.ahead pos = written ++ rest)
    (hne : written ≠ []) (hwritten : ∀ b ∈ written, Byte.isNameByte b = true)
    (hrest : ∀ b ∈ rest.head?, Byte.isNameByte b = false) :
    s.name? pos = if Label.isNumbered (Bytes.toName written) then none
      else some (Bytes.toName written, pos + written.length) := by
  obtain ⟨b, tail, rfl⟩ := List.exists_cons_of_ne_nil hne
  have hchar := Byte.isDigit_nameChar (hwritten b List.mem_cons_self)
  have hhead : (Bytes.toName (b :: tail)).toList.head? =
      some (Char.ofNat (Byte.lower b).toNat) := by
    rw [Bytes.toName, String.toList_ofList]
    rfl
  have hstart : s.holdsAt pos Byte.isNameStart = Byte.isNameStart b := by
    rw [holdsAt_eq, hahead]
    rfl
  rw [name?, hstart, advanceWhile_append hahead hwritten hrest, Label.isNumbered, hhead,
    Option.any_some, hchar]
  dsimp only
  rw [slice_append hahead]
  cases Byte.isNameStart b <;> rfl

/-! ## The statement -/

/-- Where a label is spelled, execution comes to a label; without a name that readers find, it is
one without a name. -/
theorem kind_of_spellsLabel (h : s.SpellsLabel pos written) (tags : Bool) :
    (s.statementAt pos tags).kind =
      .label (if Label.isNumbered (Bytes.toName written) then ""
        else Bytes.toName written) := by
  have hpos := Nat.le_of_lt h.lt_size
  obtain ⟨hne, hwritten, blanks, rest, hahead, hblanks, hrest⟩ := h
  have hstart : s.skipSeparators (min pos s.size) = pos + blanks.length := by
    rw [Nat.min_eq_left hpos]
    refine advanceWhile_append hahead (fun b hb => ?_) fun b hb => ?_
    · rw [hblanks b hb, Bool.true_or]
    · obtain rfl : Byte.asterisk = b := by simpa using hb
      rfl
  have hstar := ahead_add_length hahead
  have hname := ahead_succ hstar
  have hmark : s.holdsAt (pos + blanks.length + 1) Byte.isNameByte = true := by
    obtain ⟨b, tail, rfl⟩ := List.exists_cons_of_ne_nil hne
    rw [holdsAt_eq, hname]
    exact hwritten b List.mem_cons_self
  have hbyte : s.byte? (pos + blanks.length) = some Byte.asterisk := by
    rw [byte?_eq_head?, hstar]
    rfl
  rw [statementAt, hstart]
  simp only [hbyte, hmark, name?_of_ahead hname hne hwritten hrest]
  show StatementKind.label _ = _
  split <;> rfl

/-! ## The operand -/

/-- Behind an asterisk a label is read as a name. -/
theorem label_of_asterisk {scope : Scope} {gap rest : Bytes} (warnings : List Warning)
    (h : scope.script.ahead pos = gap ++ Byte.asterisk :: rest) (hgap : Expression.Blank gap) :
    scope.label ⟨pos, warnings⟩ =
      (match scope.script.name? (pos + gap.length + 1) with
        | none => throw .labelNameExpected
        | some (name, after) => do
          moveTo after
          scope.skipBlanks
          return name : Reader String) ⟨pos + gap.length + 1, warnings⟩ := by
  have hskip : scope.skipBlanks ⟨pos, warnings⟩ = .ok () ⟨pos + gap.length, warnings⟩ := by
    refine Expression.skipBlanks_of_ahead h hgap fun b hb => ?_
    obtain rfl : Byte.asterisk = b := by simpa using hb
    rfl
  rw [Scope.label, Action.bind_of_ok hskip,
    Action.bind_of_ok (Expression.eat_of_ahead (ahead_add_length h))]
  rfl

/-- An operand that spells a label is read as its name, if readers find one there. -/
theorem label_of_spellsLabel (scope : Scope) (h : scope.script.SpellsLabel pos written)
    (warnings : List Warning) :
    if Label.isNumbered (Bytes.toName written) then
      ∃ after, scope.label ⟨pos, warnings⟩ = .error .labelNameExpected ⟨after, warnings⟩
    else ∃ after, scope.label ⟨pos, warnings⟩ = .ok (Bytes.toName written) ⟨after, warnings⟩ := by
  obtain ⟨hne, hwritten, blanks, rest, hahead, hblanks, hrest⟩ := h
  have hname := name?_of_ahead (ahead_succ (ahead_add_length hahead)) hne hwritten hrest
  rw [label_of_asterisk warnings hahead hblanks, hname]
  split
  · exact ⟨_, rfl⟩
  · exact ⟨_, rfl⟩

end Script

namespace NameLog

/-- Names that are made of name bytes are recorded as they are. -/
theorem mem_record_toName {written : Bytes} (hwritten : ∀ b ∈ written, Byte.isNameByte b = true)
    {log : NameLog} (henabled : log.enabled = true) :
    Bytes.toName written ∈ (log.record (Bytes.toName written)).names := by
  have hlower : (Bytes.toName written).toLower = Bytes.toName written := by
    rw [← String.toList_inj, Text.Utf8.toList_toLower, Bytes.toName, String.toList_ofList,
      List.map_map]
    exact List.map_congr_left fun b hb => (Byte.toLower_nameChar (hwritten b hb)).1
  rw [record, if_pos henabled, mem_insert]
  exact .inr hlower.symm

end NameLog

/-! ## Jumps -/

namespace Machine

variable {m : Machine} {label : Label} {written : Bytes}

/-- An operand that is read without warnings. -/
theorem operand_of_ok {α : Type} {read : Scope → Reader α} {value : α} {after : Nat}
    (h : read m.scope { pos := m.cursor } = .ok value { pos := after }) :
    ∃ pc, operand read m = .ok value { m with pc } := by
  have hrun : (read m.scope).run { pos := m.cursor } = .ok value { pos := after } := h
  rw [operand, Action.get_bind, hrun]
  exact ⟨_, rfl⟩

/-- An operand that cannot be read leaves the machine as it was. -/
theorem operand_of_error {α : Type} {read : Scope → Reader α} {fault : Fault} {after : Nat}
    (h : read m.scope { pos := m.cursor } = .error fault { pos := after }) :
    operand read m = .error fault m := by
  have hrun : (read m.scope).run { pos := m.cursor } = .error fault { pos := after } := h
  rw [operand, Action.get_bind, hrun]
  rfl

/-- A jump goes to the label that its operand names, if readers find a name there. -/
theorem gotoLabel_of_spellsLabel (hspelled : m.script.SpellsLabel m.pc written)
    (hfound : m.labels.byName (Bytes.toName written) = .ok label) :
    gotoLabel m = if Label.isNumbered (Bytes.toName written) then
        .error .labelNameExpected m
      else .ok .stay { m with pc := label.start, inText := false } := by
  have hcursor : m.cursor = m.pc := Nat.min_eq_left (Nat.le_of_lt hspelled.lt_size)
  have hread := Script.label_of_spellsLabel m.scope hspelled []
  rw [← hcursor] at hread
  by_cases hdigit : Label.isNumbered (Bytes.toName written)
  · rw [if_pos hdigit] at hread ⊢
    obtain ⟨after, hread⟩ := hread
    have hlabel : readLabel m = .error .labelNameExpected m := operand_of_error hread
    exact Action.bind_of_error hlabel _
  · rw [if_neg hdigit] at hread ⊢
    obtain ⟨after, hread⟩ := hread
    have hlabel : ∃ pc, readLabel m = .ok (Bytes.toName written) { m with pc } :=
      operand_of_ok hread
    obtain ⟨pc, hlabel⟩ := hlabel
    have hjump : jumpTo (Bytes.toName written) { m with pc } =
        .ok () { m with pc := label.start, inText := false } := by
      show (Action.ofExcept (m.labels.byName (Bytes.toName written)) >>= _ : Run Unit) _ = _
      rw [hfound]
      rfl
    rw [gotoLabel, Action.bind_of_ok hlabel, Action.bind_of_ok hjump]
    rfl

/-- The statement of a label records its name and goes on behind it. -/
theorem runStatement_of_label {name : String}
    (hkind : (m.script.statementAt m.pc m.pretextHook.isSome).kind = .label name) :
    runStatement m = .ok .continued { m with
      statementStart := (m.script.statementAt m.pc m.pretextHook.isSome).start
      statementName := none
      labelLog := m.labelLog.record name
      pc := (m.script.statementAt m.pc m.pretextHook.isSome).next } := by
  have hwarnings : (m.script.statementAt m.pc m.pretextHook.isSome).warnings = [] := by
    obtain hnone | ⟨tag, htag⟩ := warnings_statementAt m.script m.pc m.pretextHook.isSome
    · exact hnone
    · cases hkind.symm.trans htag
  show (warnAll _ >>= fun _ => _ : Run Event) _ = _
  rw [hwarnings, hkind]
  rfl

/-- A step onto a label records the name that readers find there. -/
theorem step_of_arrivedAt {addr : Nat} (harrived : m.ArrivedAt addr)
    (hspelled : m.script.SpellsLabel addr written) :
    ∃ passed, step m = .ok .continued passed ∧
      passed.labelLog = m.labelLog.record
        (if Label.isNumbered (Bytes.toName written) then ""
          else Bytes.toName written) := by
  obtain rfl := harrived.pc
  rw [harrived.step_eq, located,
    runStatement_of_label (Script.kind_of_spellsLabel hspelled m.pretextHook.isSome)]
  exact ⟨_, rfl, rfl⟩

/-- A step that executes a jump arrives at the label that its operand names, if readers find a name
there. -/
theorem step_goto {operands : Nat} (hm : Reachable m)
    (hupcoming : m.upcoming? = some (.goto, operands))
    (hlabel : label ∈ (LabelTable.build m.script).1.labels)
    (hspelled : m.script.SpellsLabel operands written) (hname : Bytes.toName written = label.name) :
    if Label.isNumbered label.name then
      ∃ failure after, step m = .error failure after ∧ failure.fault = .labelNameExpected
    else
      ∃ entered, step m = .ok .continued entered ∧ entered.script = m.script ∧
        entered.ArrivedAt label.start := by
  obtain ⟨settled, word, hsettled, hended, rfl, -, hstep⟩ := step_executes hupcoming
  have hsame : settled.script = m.script ∧ settled.labels = m.labels :=
    of_settled? (I := fun n => n.script = m.script ∧ n.labels = m.labels) (fun _ _ h => h)
      (fun _ _ _ h => h) ⟨rfl, rfl⟩ hsettled
  have hfound : settled.labels.byName (Bytes.toName written) = .ok label := by
    rw [hsame.2, hname, show m.labels = _ from hm.inside.labels]
    exact LabelTable.byName_build hlabel
  have hgoto : execute .goto (settled.atCommand word) = _ :=
    gotoLabel_of_spellsLabel (m := settled.atCommand word) (hsame.1 ▸ hspelled) hfound
  rw [hname] at hgoto
  rw [hstep, located]
  split
  · next hdigit =>
    rw [if_pos hdigit] at hgoto
    rw [Action.bind_of_error hgoto]
    exact ⟨_, _, rfl, rfl⟩
  · next hdigit =>
    rw [if_neg hdigit] at hgoto
    rw [Action.bind_of_ok hgoto]
    have hpending := pendingHost_of_settled? hsettled
    exact ⟨_, rfl, hsame.1, rfl, hpending, hended, rfl⟩

/-- **A label is read alike in all three places exactly if its name does not begin with a digit.**
Take any label of the table of a script. If its name does not begin with a digit, execution comes to
a statement with that name where the label stands; an operand that spells the name, in any case, is
looked up as this label; and a jump with such an operand arrives at the label, and the next step
records it under that name. If the name begins with a digit, the statement has no name, no operand
that spells the name can be read, and every jump with such an operand fails. -/
theorem label_read_alike_iff {script : Script} {label : Label}
    (hlabel : label ∈ (LabelTable.build script).1.labels) :
    (Label.isNumbered label.name = false →
      (∀ tags, (script.statementAt label.start tags).kind = .label label.name) ∧
      (∀ (scope : Scope) (pos : Nat) (warnings : List Warning) (written : Bytes),
        scope.script.SpellsLabel pos written → Bytes.toName written = label.name →
          ∃ name after, scope.label ⟨pos, warnings⟩ = .ok name ⟨after, warnings⟩ ∧
            (LabelTable.build script).1.byName name = .ok label) ∧
      (∀ (m : Machine) (operands : Nat) (written : Bytes),
        Reachable m → m.script = script → m.upcoming? = some (.goto, operands) →
          script.SpellsLabel operands written → Bytes.toName written = label.name →
          ∃ entered passed, step m = .ok .continued entered ∧ entered.pc = label.start ∧
            step entered = .ok .continued passed ∧
            passed.labelLog = entered.labelLog.record label.name ∧
            (entered.labelLog.enabled = true → label.name ∈ passed.labelLog.names))) ∧
    (Label.isNumbered label.name = true →
      (∀ tags, (script.statementAt label.start tags).kind = .label "") ∧
      (∀ (scope : Scope) (pos : Nat) (warnings : List Warning) (written : Bytes),
        scope.script.SpellsLabel pos written → Bytes.toName written = label.name →
          ∃ after, scope.label ⟨pos, warnings⟩ = .error .labelNameExpected ⟨after, warnings⟩) ∧
      (∀ (m : Machine) (operands : Nat) (written : Bytes),
        Reachable m → m.script = script → m.upcoming? = some (.goto, operands) →
          script.SpellsLabel operands written → Bytes.toName written = label.name →
          ∃ failure after, step m = .error failure after ∧
            failure.fault = .labelNameExpected)) := by
  obtain ⟨standing, hstands, hstanding⟩ := (LabelTable.defines_of_mem_build hlabel).1.spelled
  have hkind := Script.kind_of_spellsLabel hstands
  rw [hstanding] at hkind
  constructor
  · intro hnamed
    have hplain : ¬ Label.isNumbered label.name = true := by simp [hnamed]
    refine ⟨fun tags => ?_, fun scope pos warnings written hspelled hname => ?_, ?_⟩
    · rw [hkind, if_neg hplain]
    · have hread := Script.label_of_spellsLabel scope hspelled warnings
      rw [hname, if_neg hplain] at hread
      obtain ⟨after, hread⟩ := hread
      exact ⟨label.name, after, hread, LabelTable.byName_build hlabel⟩
    · rintro m operands written hm rfl hupcoming hspelled hname
      have hgoto := step_goto hm hupcoming hlabel hspelled hname
      rw [if_neg hplain] at hgoto
      obtain ⟨entered, hentered, hscript, harrived⟩ := hgoto
      obtain ⟨passed, hpassed, hlog⟩ := step_of_arrivedAt harrived (hscript.symm ▸ hstands)
      rw [hstanding, if_neg hplain] at hlog
      refine ⟨entered, passed, hentered, harrived.pc, hpassed, hlog, fun henabled => ?_⟩
      rw [hlog, ← hstanding]
      exact NameLog.mem_record_toName hstands.2.1 henabled
  · intro hdigit
    refine ⟨fun tags => ?_, fun scope pos warnings written hspelled hname => ?_, ?_⟩
    · rw [hkind, if_pos hdigit]
    · have hread := Script.label_of_spellsLabel scope hspelled warnings
      rwa [hname, if_pos hdigit] at hread
    · rintro m operands written hm rfl hupcoming hspelled hname
      have hgoto := step_goto hm hupcoming hlabel hspelled hname
      rwa [if_pos hdigit] at hgoto

/-- A jump to a label in another case, with the log of labels on. -/
def jumpScript : Script where
  bytes := (Bytes.ofText "labellog\ngoto *SCENE_2\nend\n  *Scene_2\n").toArray
  encoding := .utf8

/-- The machine in front of the jump. -/
def beforeJump : Machine :=
  ((fresh jumpScript { variableSlots := 8 } .absent).serveAll [.step, .step]).2

/-- The label of this script is arrived at and recorded under its name. -/
theorem label_read_alike_beforeJump :
    let label : Label := ⟨"scene_2", 27, 3, 1⟩
    label ∈ (LabelTable.build jumpScript).1.labels ∧ Label.isNumbered label.name = false ∧
      Reachable beforeJump ∧ beforeJump.upcoming? = some (.goto, 13) ∧
      jumpScript.SpellsLabel 13 (Bytes.ofText "SCENE_2") ∧
      (jumpScript.statementAt 27 false).kind = .label "scene_2" ∧
      ∃ entered passed, step beforeJump = .ok .continued entered ∧ entered.pc = 27 ∧
        step entered = .ok .continued passed ∧
        passed.labelLog = entered.labelLog.record "scene_2" := by
  intro label
  have hlabel : label ∈ (LabelTable.build jumpScript).1.labels := by decide +kernel
  have hreachable : Reachable beforeJump :=
    Reachable.serveAll
      (.load (show load jumpScript { variableSlots := 8 } .absent = .ok _ from rfl)) _
  have hscript : beforeJump.script = jumpScript := by decide +kernel
  have hupcoming : beforeJump.upcoming? = some (.goto, 13) := by decide +kernel
  have hspelled : jumpScript.SpellsLabel 13 (Bytes.ofText "SCENE_2") := by
    refine ⟨by decide +kernel, by decide +kernel, [Byte.space],
      Bytes.ofText "\nend\n  *Scene_2\n", ?_⟩
    decide +kernel
  obtain ⟨hagree, -⟩ := label_read_alike_iff hlabel
  obtain ⟨hstatement, -, hjump⟩ := hagree (by decide +kernel)
  obtain ⟨entered, passed, hentered, hpc, hpassed, hlog, -⟩ :=
    hjump beforeJump 13 _ hreachable hscript hupcoming hspelled (by decide +kernel)
  exact ⟨hlabel, by decide +kernel, hreachable, hupcoming, hspelled, hstatement false, entered,
    passed, hentered, hpc, hpassed, hlog⟩

/-- A jump to a label whose name begins with a digit. -/
def numberedScript : Script where
  bytes := (Bytes.ofText "*1a\nlabellog\ngoto *1a\n").toArray
  encoding := .utf8

/-- The machine in front of this jump. -/
def beforeNumberedJump : Machine :=
  ((fresh numberedScript { variableSlots := 8 } .absent).serveAll (List.replicate 4 .step)).2

/-- The table has the label, but the statement where it stands has no name, so that the log that was
switched on in between never has the name, and the jump to the label fails. -/
theorem label_read_apart_beforeNumberedJump :
    (⟨"1a", 0, 0, 3⟩ : Label) ∈ (LabelTable.build numberedScript).1.labels ∧
      (numberedScript.statementAt 0 false).kind = .label "" ∧
      Reachable beforeNumberedJump ∧ beforeNumberedJump.upcoming? = some (.goto, 17) ∧
      numberedScript.SpellsLabel 17 (Bytes.ofText "1a") ∧
      (beforeNumberedJump.serve .step).1 = .error
        { fault := .labelNameExpected, location := some ⟨"1a", 2, some "goto"⟩ } := by
  refine ⟨by decide +kernel, by decide +kernel, ?_, by decide +kernel, ?_, by decide +kernel⟩
  · exact Reachable.serveAll
      (.load (show load numberedScript { variableSlots := 8 } .absent = .ok _ from rfl)) _
  · refine ⟨by decide +kernel, by decide +kernel, [Byte.space], [Byte.newline], ?_⟩
    decide +kernel

end Machine

end NovelScript
