import NovelScript.Proofs.Expression.Conditions
import NovelScript.Proofs.Machine.Looping

/-!
# Where a condition ends

No sign stands between a condition and the statement that it guards: the readers of operands decide
where the last operand stops by what follows it. All terms are read, whether they hold or not, and
behind the last one the reader stands on the first byte of the guarded statement.
-/

namespace NovelScript.Machine

open NovelScript.Expression
open NovelScript.Operand (Scope Reader)

variable {m : Machine} {p : Nat} {before text gap rest : Bytes} {b : UInt8}

/-! ## Operands of the machine -/

private theorem cursor_of_ahead (hahead : m.script.ahead p = rest) (hrest : rest ≠ []) :
    ({ m with pc := p } : Machine).cursor = p := by
  refine Nat.min_eq_left ?_
  have hlength := Script.length_ahead m.script p
  rw [hahead] at hlength
  have := List.length_pos_iff.mpr hrest
  show p ≤ m.script.size
  omega

/-- What comes first is not a blank, so that nothing is passed over. -/
theorem skipBlanks_of_cons (hahead : m.script.ahead p = b :: rest) (hb : Byte.isBlank b = false) :
    m.script.skipBlanks p = p := by
  refine skipBlanks_eq_self ?_
  rw [hahead]
  exact .cons hb

/-- An operand is read up to what ends it, which is no comma. -/
theorem operand_of_reads {α : Type} {read : Scope → Reader α} {value? : Option α} {value : α}
    (hend : EndsOperand gap b)
    (hahead : m.script.ahead p = before ++ (text ++ (gap ++ b :: rest)))
    (hread : Reads (read m.scope ⟨p, []⟩) value? (p + before.length + text.length + gap.length) [])
    (hvalue : value? = some value) :
    operand read { m with pc := p } =
      .ok value { m with pc := p + (before ++ text ++ gap).length } := by
  have hahead' : m.script.ahead p = (before ++ text ++ gap) ++ b :: rest := by
    simpa only [List.append_assoc] using hahead
  have hstop : p + before.length + text.length + gap.length =
      p + (before ++ text ++ gap).length := by
    simp only [List.length_append, Nat.add_assoc]
  rw [hstop, hvalue] at hread
  have hopen : m.script.ahead (p + (before ++ text ++ gap).length) = b :: rest :=
    Script.ahead_add_length hahead'
  generalize p + (before ++ text ++ gap).length = stop at hread hopen ⊢
  have hblank := skipBlanks_of_cons hopen hend.plain.1
  have hcomma : m.script.eat Byte.comma stop = stop := by
    rw [Script.eat, Script.isAt_cons hopen, beq_eq_false_iff_ne.mpr hend.plain.2.1,
      if_neg Bool.false_ne_true]
  have hcursor : ({ m with pc := p } : Machine).cursor = p := cursor_of_ahead hahead' (by simp)
  have hrun : (read m.scope).run ⟨p, []⟩ = .ok value ⟨stop, []⟩ := hread
  have hscope : ({ m with pc := p } : Machine).scope = m.scope := rfl
  rw [operand, Action.get_bind, hcursor, hscope, hrun]
  show EStateM.Result.ok value { m with
    pc := m.script.skipBlanks (m.script.eat Byte.comma (m.script.skipBlanks stop)) } = _
  rw [hblank, hcomma, hblank]

/-- An integer expression is read up to what ends it. -/
theorem readInt_of_written {tree : Tree} {value : Int32} (h : tree.Written m.aliases text)
    (hbefore : Blank before) (hgap : Blank gap) (hend : EndsOperand gap b)
    (hremainder : ¬ RemainderNext (b :: rest))
    (hahead : m.script.ahead p = before ++ (text ++ (gap ++ b :: rest)))
    (hvalue : tree.value? m.store m.aliases = some value) :
    readInt { m with pc := p } = .ok value { m with pc := p + (before ++ text ++ gap).length } := by
  have hcalls : 4 * (text.length + gap.length) + 2 ≤ m.scope.callBound p := by
    have hlength := Script.length_ahead m.script p
    rw [hahead] at hlength
    simp only [List.length_append] at hlength
    show 4 * (text.length + gap.length) + 2 ≤ 4 * (m.script.size - p) + 8
    omega
  exact operand_of_reads hend hahead ((readsWithin m.scope _).expression [] h hbefore hgap
    (hend.stops hremainder) (hahead.trans (by simp only [List.append_assoc])) hcalls) hvalue

/-- A string expression is read up to what ends it. -/
theorem readStr_of_written {sum : StringSum} {value : Bytes}
    (h : sum.Written m.script.encoding m.aliases text) (hbefore : Blank before)
    (hgap : Blank gap) (hend : EndsOperand gap b)
    (hahead : m.script.ahead p = before ++ (text ++ (gap ++ b :: rest)))
    (hvalue : sum.value? m.store m.aliases = some value) :
    readStr { m with pc := p } = .ok value { m with pc := p + (before ++ text ++ gap).length } :=
  operand_of_reads hend hahead (str_of_written (show m.scope.narrow = false from rfl) h
    hbefore hgap (show StopsString gap (b :: rest) from hend.stopsString hgap)
    (hahead.trans (by simp only [List.append_assoc]))) hvalue

/-- The name of a label is read up to what ends it. -/
theorem readLabel_of_written {label : LabelOperand} {name : String}
    (h : label.Written m.script.encoding m.aliases text) (hbefore : Blank before)
    (hgap : Blank gap) (hend : EndsOperand gap b)
    (hahead : m.script.ahead p = before ++ (text ++ (gap ++ b :: rest)))
    (hname : label.name? m.store m.aliases = some name) :
    readLabel { m with pc := p } =
      .ok name { m with pc := p + (before ++ text ++ gap).length } := by
  have hread : Reads (Scope.label m.scope ⟨p, []⟩) (some name)
      (p + (before ++ text ++ gap).length) [] :=
    label_of_written rfl h hbefore hgap (hend.stopsString hgap) hahead hname
  refine operand_of_reads hend hahead ?_ rfl
  simpa only [List.length_append, Nat.add_assoc] using hread

/-! ## Words and operators -/

/-- Punctuation is passed over with the blanks after it, if it is next. -/
theorem eatToken_eq (hahead : m.script.ahead p = b :: rest) (hb : Byte.isBlank b = false)
    (token : Bytes) : eatToken token { m with pc := p } =
      if token.isPrefixOf (b :: rest) then
        .ok true { m with pc := m.script.skipBlanks (p + token.length) }
      else .ok false { m with pc := p } := by
  have hcursor : ({ m with pc := p } : Machine).cursor = p := cursor_of_ahead hahead (by simp)
  rw [eatToken, Action.get_bind, hcursor]
  show (if m.script.startsWith token (m.script.skipBlanks p) = true then _ else _ : Run Bool) _ = _
  rw [skipBlanks_of_cons hahead hb, Script.startsWith_eq, hahead]
  split <;> rfl

/-- The first operator in a list that is next is read. -/
theorem readComparisonOf_eq (hahead : m.script.ahead p = b :: rest) (hb : Byte.isBlank b = false)
    (tokens : List (Bytes × Comparison)) : readComparisonOf tokens { m with pc := p } =
      match tokens.find? fun entry => entry.1.isPrefixOf (b :: rest) with
      | some (token, comparison) =>
        .ok (some comparison) { m with pc := m.script.skipBlanks (p + token.length) }
      | none => .ok none { m with pc := p } := by
  induction tokens with
  | nil => rfl
  | cons entry tokens ih =>
    obtain ⟨token, comparison⟩ := entry
    have heat := eatToken_eq hahead hb token
    cases hstarts : token.isPrefixOf (b :: rest) with
    | true =>
      rw [hstarts, if_pos rfl] at heat
      rw [readComparisonOf, Action.bind_of_ok heat, List.find?_cons, hstarts]
      rfl
    | false =>
      rw [hstarts, if_neg Bool.false_ne_true] at heat
      rw [readComparisonOf, Action.bind_of_ok heat, List.find?_cons, hstarts]
      exact ih

/-- A comparison operator is read with the blanks after it. -/
theorem readComparison_of_written {comparison : Comparison} {token : Bytes}
    (htoken : (token, comparison) ∈ Comparison.tokens)
    (hahead : m.script.ahead p = token ++ (gap ++ b :: rest)) (hgap : Blank gap)
    (hb : Byte.isBlank b = false ∧ b ≠ 0x3d ∧ b ≠ 0x3e) :
    readComparison { m with pc := p } =
      .ok (some comparison) { m with pc := p + (token ++ gap).length } := by
  -- What comes behind the operator does not prolong it.
  have hnext : ∀ c ∈ (gap ++ b :: rest).head?, c ≠ 0x3d ∧ c ≠ 0x3e := by
    cases gap with
    | nil => simpa using hb.2
    | cons blank gap =>
      intro c hc
      obtain rfl : blank = c := by simpa using hc
      have hblank := hgap blank (by simp)
      refine ⟨?_, ?_⟩ <;>
      · rintro rfl
        exact absurd hblank (by decide)
  obtain ⟨first, tail, rfl, hfirst⟩ : ∃ first tail, token = first :: tail ∧
      Byte.isBlank first = false := by
    have hall : ∀ entry ∈ Comparison.tokens, ∃ first tail, entry.1 = first :: tail ∧
        Byte.isBlank first = false := by
      simp [Comparison.tokens, Byte.isBlank, Byte.space, Byte.tab]
    exact hall _ htoken
  have hopen : m.script.ahead p = first :: (tail ++ (gap ++ b :: rest)) := hahead
  have hfound := Comparison.find?_tokens htoken hnext
  have hafter := skipBlanks_append (Script.ahead_add_length hahead) hgap (.cons hb.1)
  rw [List.cons_append] at hfound
  rw [readComparison, readComparisonOf_eq hopen hfirst, hfound]
  show EStateM.Result.ok (some comparison) { m with
    pc := m.script.skipBlanks (p + (first :: tail).length) } = _
  rw [hafter, List.length_append, Nat.add_assoc]

/-- Where no comparison operator is next none is read. -/
theorem readComparison_of_cons (hahead : m.script.ahead p = b :: rest)
    (hb : Byte.isBlank b = false) (hnone : b ∉ [0x3e, 0x3c, 0x3d, 0x21]) :
    readComparison { m with pc := p } = .ok none { m with pc := p } := by
  rw [readComparison, readComparisonOf_eq hahead hb, Comparison.find?_tokens_eq_none hnone]

/-- The word of a question stands behind the blanks in front of it. -/
theorem keyword?_of_asks {word : String} {isNamed : Bool} {front : Bytes}
    (hword : IsName (Bytes.ofText word))
    (hlower : (Bytes.ofText word).map Byte.lower = Bytes.ofText word)
    (h : Asks word isNamed front) (hbefore : Blank before)
    (hahead : m.script.ahead p = before ++ (front ++ b :: rest))
    (hnamed : Byte.isNameByte b = true → isNamed = true) :
    ∃ letters gap, front = letters ++ gap ∧ Blank gap ∧
      m.script.skipBlanks p = p + before.length ∧
      m.script.keyword? word (p + before.length) = some (p + before.length + letters.length) := by
  obtain ⟨letters, gap, rfl, hletters, hgap, happart⟩ := h
  have hahead' : m.script.ahead p = before ++ (letters ++ (gap ++ b :: rest)) := by
    simpa only [List.append_assoc] using hahead
  have hblank : NotBlank (letters ++ (gap ++ b :: rest)) := by
    obtain ⟨first, tail, hfirst, hstart, -⟩ := hword
    rw [hfirst] at hletters
    obtain ⟨first', tail', rfl, hlower', -⟩ := List.map_eq_cons_iff.mp hletters
    exact .cons (isBlank_of_isNameStart (by rw [← Byte.isNameStart_lower, hlower', hstart]))
  have hend : ∀ c ∈ (gap ++ b :: rest).head?, Byte.isNameByte c = false := by
    cases gap with
    | nil =>
      intro c hc
      obtain rfl : b = c := by simpa using hc
      by_contra hname
      exact happart (hnamed (by simpa using hname)) rfl
    | cons blank gap => simpa using Byte.isNameByte_eq_false_of_isBlank (hgap blank (by simp))
  exact ⟨letters, gap, rfl, hgap, skipBlanks_append hahead' hbefore hblank,
    Script.keyword?_of_ahead (Script.ahead_add_length hahead') (hletters.trans hlower.symm) hend⟩

/-- A word that is next is passed over with the blanks around it. -/
theorem eatKeyword_of_asks {word : String} {isNamed : Bool} {front : Bytes}
    (hword : IsName (Bytes.ofText word))
    (hlower : (Bytes.ofText word).map Byte.lower = Bytes.ofText word)
    (h : Asks word isNamed front) (hbefore : Blank before)
    (hahead : m.script.ahead p = before ++ (front ++ b :: rest)) (hb : Byte.isBlank b = false)
    (hnamed : Byte.isNameByte b = true → isNamed = true) :
    eatKeyword word { m with pc := p } =
      .ok true { m with pc := p + (before ++ front).length } := by
  obtain ⟨letters, gap, rfl, hgap, hstart, hfound⟩ :=
    keyword?_of_asks hword hlower h hbefore hahead hnamed
  have hbehind : m.script.ahead (p + before.length + letters.length) = gap ++ b :: rest :=
    Script.ahead_add_length ((Script.ahead_add_length hahead).trans (List.append_assoc _ _ _))
  have hafter := skipBlanks_append hbehind hgap (.cons hb)
  have hcursor : ({ m with pc := p } : Machine).cursor = p := cursor_of_ahead hahead (by simp)
  rw [eatKeyword, Action.get_bind, hcursor]
  simp only [hstart, hfound]
  show EStateM.Result.ok true { m with
    pc := m.script.skipBlanks (p + before.length + letters.length) } = _
  rw [hafter]
  simp only [List.length_append, Nat.add_assoc]

/-- A word that is not next is not passed over. -/
theorem eatKeyword_of_ne {word : String} (hword : IsName (Bytes.ofText word))
    (hahead : m.script.ahead p ≠ [])
    (h : ∀ name after, m.script.name? (m.script.skipBlanks p) = some (name, after) →
      name ≠ (Bytes.ofText word).toName) :
    eatKeyword word { m with pc := p } = .ok false { m with pc := p } := by
  have hnone : m.script.keyword? word (m.script.skipBlanks p) = none := by
    cases hfound : m.script.keyword? word (m.script.skipBlanks p) with
    | none => rfl
    | some after => exact absurd rfl (h _ after (Script.name?_of_keyword? hword hfound))
  have hcursor : ({ m with pc := p } : Machine).cursor = p := cursor_of_ahead rfl hahead
  rw [eatKeyword, Action.get_bind, hcursor]
  simp only [hnone]
  rfl

/-! ## Terms -/

/-- Reads a comparison of strings. -/
def stringComparison : Run Bool := do
  let lhs ← readStr
  match ← readComparison with
  | none => throw .comparisonExpected
  | some comparison =>
    let rhs ← readStr
    return comparison.holds (Bytes.order lhs rhs)

/-- Reads a comparison of integers, or an integer that must not be zero. -/
def integerTest : Run Bool := do
  let lhs ← readInt
  match ← readComparison with
  | none => return lhs != 0
  | some comparison =>
    let rhs ← readInt
    return comparison.holds (compareOfLessAndEq lhs rhs)

/-- A term that does not begin with one of the words for the logs is a test of strings or of
integers. -/
theorem conditionTerm_of_asksNothing (hbefore : Blank before)
    (hahead : m.script.ahead p = before ++ b :: rest) (hb : Byte.isBlank b = false)
    (h : AsksNothing m.script (p + before.length)) :
    conditionTerm { m with pc := p } =
      (if m.scope.startsString (p + before.length) then stringComparison else integerTest)
        { m with pc := p } := by
  have hstart : m.script.skipBlanks p = p + before.length :=
    skipBlanks_append hahead hbefore (.cons hb)
  have hne : m.script.ahead p ≠ [] := by simp [hahead]
  have hfile : eatKeyword fileWord { m with pc := p } = .ok false { m with pc := p } :=
    eatKeyword_of_ne isName_fileWord hne fun name after hname =>
      (h name after (hstart ▸ hname)).1
  have hlabel : eatKeyword labelWord { m with pc := p } = .ok false { m with pc := p } :=
    eatKeyword_of_ne isName_labelWord hne fun name after hname =>
      (h name after (hstart ▸ hname)).2
  have hcursor : ({ m with pc := p } : Machine).cursor = p := cursor_of_ahead rfl hne
  have hstring : ({ m with pc := p } : Machine).atString =
      m.scope.startsString (p + before.length) := by
    rw [atString, hcursor, ← hstart]
    rfl
  change (eatKeyword fileWord >>= _) _ = _
  rw [Action.bind_of_ok hfile, if_neg Bool.false_ne_true]
  change (eatKeyword labelWord >>= _) _ = _
  rw [Action.bind_of_ok hlabel, if_neg Bool.false_ne_true, Action.get_bind, hstring]
  rfl

/-- A comparison operator ends the operand in front of it. -/
theorem endsOperand_of_token {comparison : Comparison} {token : Bytes} (gap : Bytes)
    (h : (token, comparison) ∈ Comparison.tokens) :
    ∃ first tail, token = first :: tail ∧ EndsOperand gap first ∧
      ∀ rest, ¬ RemainderNext (first :: rest) := by
  have hall : ∀ entry ∈ Comparison.tokens, ∃ first tail, entry.1 = first :: tail ∧
      first ∈ [0x3e, 0x3c, 0x3d, 0x21] := by
    simp [Comparison.tokens]
  obtain ⟨first, tail, hfirst, hmem⟩ := hall _ h
  have hname : Byte.isNameByte first = false := by
    simp only [List.mem_cons, List.not_mem_nil, or_false] at hmem
    rcases hmem with rfl | rfl | rfl | rfl <;> decide
  refine ⟨first, tail, hfirst, .inl ?_, fun rest => not_remainderNext ?_⟩
  · exact List.mem_append_left [0x26] hmem
  · simpa using hname

/-- The operands of a comparison are read, and the operator between them. -/
theorem comparison_of_reads {α : Type} {read : Run α} {other : α → Run Bool}
    {test : Comparison → α → α → Bool} {comparison : Comparison} {lhs rhs : α}
    {left right joint : Bytes} (hjoint : Compares comparison joint) (hright : OpensOperand right)
    (hahead : m.script.ahead p = before ++ (left ++ (joint ++ (right ++ (gap ++ b :: rest)))))
    (hlhs : ∀ {gap first tail}, Blank gap → EndsOperand gap first → ¬ RemainderNext (first :: tail) →
      m.script.ahead p = before ++ (left ++ (gap ++ first :: tail)) →
      read { m with pc := p } = .ok lhs { m with pc := p + (before ++ left ++ gap).length })
    (hrhs : ∀ {p}, m.script.ahead p = right ++ (gap ++ b :: rest) →
      read { m with pc := p } = .ok rhs { m with pc := p + (right ++ gap).length }) :
    (do
        let lhs ← read
        match ← readComparison with
        | none => other lhs
        | some comparison =>
          let rhs ← read
          return test comparison lhs rhs : Run Bool) { m with pc := p } =
      .ok (test comparison lhs rhs)
        { m with pc := p + (before ++ left ++ joint ++ right ++ gap).length } := by
  obtain ⟨gap', token, gap'', rfl, hgap', htoken, hgap''⟩ := hjoint
  obtain ⟨c, tail', rfl, hc⟩ := hright
  have hahead' : m.script.ahead p =
      before ++ (left ++ (gap' ++ (token ++ (gap'' ++ c :: (tail' ++ (gap ++ b :: rest)))))) := by
    simpa only [List.append_assoc, List.cons_append] using hahead
  obtain ⟨first, tail, rfl, hends, hremainder⟩ := endsOperand_of_token gap' htoken
  have hoperator : m.script.ahead (p + (before ++ left ++ gap').length) =
      (first :: tail) ++ (gap'' ++ c :: (tail' ++ (gap ++ b :: rest))) :=
    Script.ahead_add_length (by simpa only [List.append_assoc] using hahead')
  have hsecond := Script.ahead_add_length
    (hoperator.trans (List.append_assoc (first :: tail) gap'' _).symm)
  have hstop : p + (before ++ left ++ gap').length + (first :: tail ++ gap'').length +
      (c :: tail' ++ gap).length =
      p + (before ++ left ++ (gap' ++ first :: tail ++ gap'') ++ c :: tail' ++ gap).length := by
    simp only [List.length_append, List.length_cons]
    omega
  rw [Action.bind_of_ok (hlhs hgap' hends (hremainder _) hahead'),
    Action.bind_of_ok (readComparison_of_written htoken hoperator hgap'' ⟨hc.1, hc.2.1, hc.2.2.1⟩)]
  simp only
  rw [Action.bind_of_ok (hrhs hsecond), hstop]
  rfl

/-- A term that begins with an integer expression is a test of integers. -/
theorem conditionTerm_of_number {tree : Tree} (h : tree.Written m.aliases text)
    (hleads : tree.Leads m.aliases) (hbefore : Blank before) (hgap : Blank gap)
    (hend : EndsOperand gap b) (hremainder : ¬ RemainderNext (b :: rest))
    (hahead : m.script.ahead p = before ++ (text ++ (gap ++ b :: rest))) :
    conditionTerm { m with pc := p } = integerTest { m with pc := p } := by
  have hstart : m.script.ahead (p + before.length) = text ++ gap ++ b :: rest := by
    rw [Script.ahead_add_length hahead, List.append_assoc]
  have hscope : m.scope.startsString (p + before.length) = false ∧
      AsksNothing m.script (p + before.length) :=
    Tree.leads_of_written h hleads hgap (hend.stops hremainder) hstart
  obtain ⟨hstring, hasks⟩ := hscope
  obtain ⟨c, tail, rfl, hc, -⟩ := opensOperand_of_tree h
  rw [conditionTerm_of_asksNothing hbefore hahead hc hasks, hstring, if_neg Bool.false_ne_true]

/-- A term that begins with a string expression is a comparison of strings. -/
theorem conditionTerm_of_string {sum : StringSum}
    (h : sum.Written m.script.encoding m.aliases text) (hleads : sum.first.Leads)
    (hbefore : Blank before) (hgap : Blank gap) (hend : EndsOperand gap b)
    (hahead : m.script.ahead p = before ++ (text ++ (gap ++ b :: rest))) :
    conditionTerm { m with pc := p } = stringComparison { m with pc := p } := by
  have hstart : m.script.ahead (p + before.length) = text ++ gap ++ b :: rest := by
    rw [Script.ahead_add_length hahead, List.append_assoc]
  have hscope : m.scope.startsString (p + before.length) = true ∧
      AsksNothing m.script (p + before.length) :=
    StringSum.leads_of_written h hleads hgap (hend.stopsString hgap) hstart
  obtain ⟨hstring, hasks⟩ := hscope
  obtain ⟨c, tail, rfl, hc, -⟩ := opensOperand_of_string h
  rw [conditionTerm_of_asksNothing hbefore hahead hc hasks, hstring, if_pos rfl]

/-- Where a comparison is written, its operator ends the first operand. -/
theorem Compares.exists_operator {comparison : Comparison} {joint follow : Bytes}
    (h : Compares comparison joint) : ∃ gap first tail, joint ++ follow = gap ++ first :: tail ∧
      Blank gap ∧ EndsOperand gap first ∧ ¬ RemainderNext (first :: tail) := by
  obtain ⟨gap, token, gap', rfl, hgap, htoken, -⟩ := h
  obtain ⟨first, tail, rfl, hends, hremainder⟩ := endsOperand_of_token gap htoken
  exact ⟨gap, first, tail ++ (gap' ++ follow), by simp, hgap, hends, hremainder _⟩

/-- An integer that must not be zero is read. -/
theorem integerTest_of_nonzero {tree : Tree} {value : Int32} (h : tree.Written m.aliases text)
    (hbefore : Blank before) (hgap : Blank gap) (hend : EndsOperand gap b)
    (hremainder : ¬ RemainderNext (b :: rest)) (hplain : b ∉ [0x3e, 0x3c, 0x3d, 0x21])
    (hahead : m.script.ahead p = before ++ (text ++ (gap ++ b :: rest)))
    (hvalue : tree.value? m.store m.aliases = some value) :
    integerTest { m with pc := p } =
      .ok (value ≠ 0) { m with pc := p + (before ++ text ++ gap).length } := by
  have hopen : m.script.ahead (p + (before ++ text ++ gap).length) = b :: rest :=
    Script.ahead_add_length (by simpa only [List.append_assoc] using hahead)
  rw [integerTest,
    Action.bind_of_ok (readInt_of_written h hbefore hgap hend hremainder hahead hvalue),
    Action.bind_of_ok (readComparison_of_cons hopen hend.plain.1 hplain)]
  simp only [bne, decide_not]
  rfl

/-- A look into the file log is read. -/
theorem conditionTerm_of_file {front : Bytes} {name : StringSum} {value : Bytes}
    (hasks : Asks fileWord name.first.isNamed front)
    (h : name.Written m.script.encoding m.aliases text) (hbefore : Blank before) (hgap : Blank gap)
    (hend : EndsOperand gap b)
    (hahead : m.script.ahead p = before ++ (front ++ (text ++ (gap ++ b :: rest))))
    (hvalue : name.value? m.store m.aliases = some value) :
    conditionTerm { m with pc := p } =
      .ok (m.fileLog.contains (m.script.encoding.display value m.table))
        { m with pc := p + (before ++ (front ++ text) ++ gap).length } := by
  obtain ⟨c, tail, htext, hc, -⟩ := opensOperand_of_string h
  have hnamed : Byte.isNameByte c = true → name.first.isNamed = true := by
    obtain ⟨head, behind, hsplit, hhead, -⟩ := h
    exact StringTerm.isNamed_of_isNameByte hhead (hsplit.symm.trans htext)
  have heat : eatKeyword fileWord { m with pc := p } =
      .ok true { m with pc := p + (before ++ front).length } :=
    eatKeyword_of_asks isName_fileWord (by decide) hasks hbefore (by rw [hahead, htext]; rfl) hc
      hnamed
  have hoperand : m.script.ahead (p + (before ++ front).length) =
      [] ++ (text ++ (gap ++ b :: rest)) :=
    Script.ahead_add_length (by simpa only [List.append_assoc, List.nil_append] using hahead)
  change (eatKeyword fileWord >>= _) _ = _
  rw [Action.bind_of_ok heat, if_pos rfl,
    Action.bind_of_ok (readStr_of_written h Blank.nil hgap hend hoperand hvalue)]
  simp only [List.length_append, List.length_nil, Nat.zero_add, Nat.add_assoc]
  rfl

/-- A look into the label log is read. -/
theorem conditionTerm_of_label {front : Bytes} {label : LabelOperand} {name : String}
    (hasks : Asks labelWord label.isNamed front)
    (h : label.Written m.script.encoding m.aliases text) (hbefore : Blank before)
    (hgap : Blank gap) (hend : EndsOperand gap b)
    (hahead : m.script.ahead p = before ++ (front ++ (text ++ (gap ++ b :: rest))))
    (hname : label.name? m.store m.aliases = some name) :
    conditionTerm { m with pc := p } = .ok (m.labelLog.contains name)
      { m with pc := p + (before ++ (front ++ text) ++ gap).length } := by
  obtain ⟨c, tail, htext, hc, hnamed⟩ := LabelOperand.opens h
  have hopen : m.script.ahead p = before ++ (front ++ c :: (tail ++ (gap ++ b :: rest))) := by
    rw [hahead, htext]
    rfl
  obtain ⟨letters, gap', -, -, hstart, hfound⟩ :=
    keyword?_of_asks isName_labelWord (by decide) hasks hbefore hopen hnamed
  have hother : eatKeyword fileWord { m with pc := p } = .ok false { m with pc := p } := by
    refine eatKeyword_of_ne isName_fileWord (by simp [hopen]) fun name after hname => ?_
    rw [hstart, Script.name?_of_keyword? isName_labelWord hfound] at hname
    obtain ⟨rfl, -⟩ := Prod.mk.inj (Option.some.inj hname)
    decide
  have heat : eatKeyword labelWord { m with pc := p } =
      .ok true { m with pc := p + (before ++ front).length } :=
    eatKeyword_of_asks isName_labelWord (by decide) hasks hbefore hopen hc hnamed
  have hoperand : m.script.ahead (p + (before ++ front).length) =
      [] ++ (text ++ (gap ++ b :: rest)) :=
    Script.ahead_add_length (by simpa only [List.append_assoc, List.nil_append] using hahead)
  change (eatKeyword fileWord >>= _) _ = _
  rw [Action.bind_of_ok hother, if_neg Bool.false_ne_true]
  change (eatKeyword labelWord >>= _) _ = _
  rw [Action.bind_of_ok heat, if_pos rfl,
    Action.bind_of_ok (readLabel_of_written h Blank.nil hgap hend hoperand hname)]
  simp only [List.length_append, List.length_nil, Nat.zero_add, Nat.add_assoc]
  rfl

/-- A term is read with the blanks around it, and gives whether it holds. -/
theorem conditionTerm_of_written {term : ConditionTerm} {after : Bytes} {value : Bool}
    (h : term.Written m.script.encoding m.aliases text) (hbefore : Blank before)
    (hafter : AfterTerm term.endsInNumber after)
    (hahead : m.script.ahead p = before ++ (text ++ after)) (hvalue : term.holds? m = some value) :
    conditionTerm { m with pc := p } = .ok value { m with
      pc := m.script.skipBlanks (p + (before ++ text).length) } := by
  obtain ⟨gap, b, rest, rfl, hgap, hend, hplain, hremainder⟩ := hafter.endsOperand
  have hbehind : m.script.ahead (p + (before ++ text).length) = gap ++ b :: rest :=
    Script.ahead_add_length (by simpa only [List.append_assoc] using hahead)
  rw [skipBlanks_append hbehind hgap hend.notBlank, Nat.add_assoc, ← List.length_append]
  cases term with
  | fileUsed name =>
    obtain ⟨front, body, rfl, hasks, hbody⟩ := h
    obtain ⟨bytes, hbytes, hvalue⟩ := Option.bind_eq_some_iff.mp hvalue
    cases hvalue
    exact conditionTerm_of_file hasks hbody hbefore hgap hend
      (by simpa only [List.append_assoc] using hahead) hbytes
  | labelPassed label =>
    obtain ⟨front, body, rfl, hasks, hbody⟩ := h
    obtain ⟨name, hname, hvalue⟩ := Option.bind_eq_some_iff.mp hvalue
    cases hvalue
    exact conditionTerm_of_label hasks hbody hbefore hgap hend
      (by simpa only [List.append_assoc] using hahead) hname
  | compareStrings lhs comparison rhs =>
    obtain ⟨left, joint, right, rfl, hleads, hleft, hjoint, hright⟩ := h
    obtain ⟨a, ha, hvalue⟩ := Option.bind_eq_some_iff.mp hvalue
    obtain ⟨c, hc, hvalue⟩ := Option.bind_eq_some_iff.mp hvalue
    cases hvalue
    have hahead' : m.script.ahead p =
        before ++ (left ++ (joint ++ (right ++ (gap ++ b :: rest)))) := by
      simpa only [List.append_assoc] using hahead
    obtain ⟨between, first, tail, hsplit, hbetween, hfirst, -⟩ := Compares.exists_operator hjoint
    rw [conditionTerm_of_string hleft hleads hbefore hbetween hfirst (hsplit ▸ hahead'),
      ← Comparison.holds_order, ← List.append_assoc before, ← List.append_assoc before]
    exact comparison_of_reads hjoint (opensOperand_of_string hright) hahead'
      (fun hgap hend _ hahead => readStr_of_written hleft hbefore hgap hend hahead ha)
      (fun hahead => readStr_of_written hright Blank.nil hgap hend hahead hc)
  | compareNumbers lhs comparison rhs =>
    obtain ⟨left, joint, right, rfl, hleads, hleft, hjoint, hright⟩ := h
    obtain ⟨a, ha, hvalue⟩ := Option.bind_eq_some_iff.mp hvalue
    obtain ⟨c, hc, hvalue⟩ := Option.bind_eq_some_iff.mp hvalue
    cases hvalue
    have hahead' : m.script.ahead p =
        before ++ (left ++ (joint ++ (right ++ (gap ++ b :: rest)))) := by
      simpa only [List.append_assoc] using hahead
    obtain ⟨between, first, tail, hsplit, hbetween, hfirst, hremains⟩ :=
      Compares.exists_operator hjoint
    rw [conditionTerm_of_number hleft hleads hbefore hbetween hfirst hremains (hsplit ▸ hahead'),
      ← Comparison.holds_compareOfLessAndEq, ← List.append_assoc before, ← List.append_assoc before]
    exact comparison_of_reads hjoint (opensOperand_of_tree hright) hahead'
      (fun hgap hend hremainder hahead =>
        readInt_of_written hleft hbefore hgap hend hremainder hahead ha)
      (fun hahead => readInt_of_written hright Blank.nil hgap hend (hremainder rfl) hahead hc)
  | nonzero tree =>
    obtain ⟨hleads, htree⟩ := h
    obtain ⟨value, hnumber, hvalue⟩ := Option.bind_eq_some_iff.mp hvalue
    cases hvalue
    rw [conditionTerm_of_number htree hleads hbefore hgap hend (hremainder rfl) hahead]
    exact integerTest_of_nonzero htree hbefore hgap hend (hremainder rfl) hplain hahead hnumber

/-! ## Conditions -/

/-- Passes over the sign that joins two terms, if it is next. -/
def eatJoint : Run Bool := do
  if ← eatToken [0x26, 0x26] then return true else eatToken [0x26]

/-- A further term is read if a sign joins one. -/
theorem conditionTail_succ (terms : Nat) (result : Bool) :
    conditionTail (terms + 1) result = do
      if ← eatJoint then
        let term ← conditionTerm
        conditionTail terms (result && term)
      else return result := by
  rw [conditionTail, eatJoint, bind_assoc]
  refine bind_congr fun double => ?_
  cases double <;> rfl

/-- Where no ampersand is next there is no further term. -/
theorem eatJoint_of_ne (hahead : m.script.ahead p = b :: rest) (hb : Byte.isBlank b = false)
    (hne : b ≠ 0x26) : eatJoint { m with pc := p } = .ok false { m with pc := p } := by
  have hnone (token : Bytes) : (0x26 :: token).isPrefixOf (b :: rest) = false := by
    simp [List.isPrefixOf, hne.symm]
  have hdouble := eatToken_eq hahead hb [0x26, 0x26]
  have hsingle := eatToken_eq hahead hb [0x26]
  rw [hnone [0x26], if_neg Bool.false_ne_true] at hdouble
  rw [hnone [], if_neg Bool.false_ne_true] at hsingle
  rw [eatJoint, Action.bind_of_ok hdouble, if_neg Bool.false_ne_true, hsingle]

/-- One or two ampersands are passed over with the blanks after them. -/
theorem eatJoint_of_ahead {joint : Bytes} (hjoint : joint = [0x26, 0x26] ∨ joint = [0x26])
    (hahead : m.script.ahead p = joint ++ (gap ++ b :: rest)) (hgap : Blank gap)
    (hb : Byte.isBlank b = false) (hne : b ≠ 0x26) :
    eatJoint { m with pc := p } = .ok true { m with pc := p + (joint ++ gap).length } := by
  have hafter := skipBlanks_append (Script.ahead_add_length hahead) hgap (.cons hb)
  rw [List.length_append, ← Nat.add_assoc, ← hafter]
  rcases hjoint with rfl | rfl
  · have hopen : m.script.ahead p = 0x26 :: 0x26 :: (gap ++ b :: rest) := hahead
    have hdouble := eatToken_eq hopen (by decide) [0x26, 0x26]
    rw [if_pos (by simp [List.isPrefixOf])] at hdouble
    rw [eatJoint, Action.bind_of_ok hdouble, if_pos rfl]
    rfl
  · have hopen : m.script.ahead p = 0x26 :: (gap ++ b :: rest) := hahead
    have hdouble := eatToken_eq hopen (by decide) [0x26, 0x26]
    have hsingle := eatToken_eq hopen (by decide) [0x26]
    have hother : ([0x26, 0x26] : Bytes).isPrefixOf (0x26 :: (gap ++ b :: rest)) = false := by
      cases gap with
      | nil => simp [List.isPrefixOf, hne.symm]
      | cons blank gap =>
        have hblank : blank ≠ 0x26 := by
          rintro rfl
          exact absurd (hgap 0x26 (by simp)) (by decide)
        simp [List.isPrefixOf, hblank.symm]
    rw [hother, if_neg Bool.false_ne_true] at hdouble
    rw [if_pos (by simp [List.isPrefixOf])] at hsingle
    rw [eatJoint, Action.bind_of_ok hdouble, if_neg Bool.false_ne_true, hsingle]

/-- All further terms are read, and the blanks behind the last one. -/
theorem conditionTail_of_joined {others : List ConditionTerm} {behind : Bytes} {terms : Nat}
    (result : Bool) (h : Joined m.script.encoding m.aliases others behind) (hgap : Blank gap)
    (hb : Byte.isNameStart b = true)
    (hafter : ∀ term ∈ others.getLast?, AfterTerm term.endsInNumber (gap ++ b :: rest))
    (hahead : m.script.ahead p = behind ++ (gap ++ b :: rest))
    (hvalues : ∀ term ∈ others, (term.holds? m).isSome = true) (hterms : others.length ≤ terms) :
    conditionTail terms result { m with pc := m.script.skipBlanks p } =
      .ok (result && others.all fun term => term.holds? m == some true)
        { m with pc := p + (behind ++ gap).length } := by
  have hrest : NotBlank (b :: rest) := .cons (isBlank_of_isNameStart hb)
  induction h generalizing p terms result with
  | nil =>
    rw [List.nil_append] at hahead
    have hopen := Script.ahead_add_length hahead
    have hne : b ≠ 0x26 := by
      rintro rfl
      exact absurd hb (by decide)
    rw [skipBlanks_append hahead hgap hrest, List.all_nil, Bool.and_true, List.nil_append]
    cases terms with
    | zero => rfl
    | succ terms =>
      rw [conditionTail_succ, Action.bind_of_ok
        (eatJoint_of_ne hopen (isBlank_of_isNameStart hb) hne), if_neg Bool.false_ne_true]
      rfl
  | @cons front joint gap' text more term others hfront hjoint hgap' hterm hmore ih =>
    obtain ⟨terms, rfl⟩ : ∃ n, terms = n + 1 := ⟨terms - 1, by simp at hterms; omega⟩
    obtain ⟨c, tail, rfl, hc, -, -, hne⟩ := ConditionTerm.opensOperand hterm
    obtain ⟨value, hvalue⟩ := Option.isSome_iff_exists.mp (hvalues term (by simp))
    have hahead' : m.script.ahead p =
        front ++ (joint ++ (gap' ++ c :: (tail ++ (more ++ (gap ++ b :: rest))))) := by
      simpa only [List.append_assoc, List.cons_append] using hahead
    have hhere := Script.ahead_add_length hahead'
    have hoperand : m.script.ahead (p + front.length + (joint ++ gap').length) =
        [] ++ (c :: tail ++ (more ++ (gap ++ b :: rest))) :=
      Script.ahead_add_length
        (by simpa only [List.append_assoc, List.cons_append, List.nil_append] using hhere)
    have hread := conditionTerm_of_written hterm Blank.nil
      (hmore.afterTerm fun hnil => hafter term (by simp [hnil])) hoperand hvalue
    have hothers : m.script.ahead (p + front.length + (joint ++ gap').length +
        ([] ++ c :: tail).length) = more ++ (gap ++ b :: rest) :=
      Script.ahead_add_length (by simpa only [List.nil_append] using hoperand)
    have hlast : ∀ last ∈ others.getLast?, AfterTerm last.endsInNumber (gap ++ b :: rest) := by
      intro last hlast
      refine hafter last ?_
      rw [List.getLast?_cons, Option.mem_def.mp hlast]
      rfl
    have hstop : p + front.length + (joint ++ gap').length + ([] ++ c :: tail).length +
        (more ++ gap).length =
        p + (front ++ (joint ++ (gap' ++ (c :: tail ++ more))) ++ gap).length := by
      simp only [List.length_append, List.length_nil]
      omega
    rw [skipBlanks_append hahead' hfront (notBlank_of_joint hjoint _), conditionTail_succ,
      Action.bind_of_ok (eatJoint_of_ahead hjoint hhere hgap' hc hne), if_pos rfl,
      Action.bind_of_ok hread, ih (result && value) hlast hothers
        (fun term hterm => hvalues term (by simp [hterm])) (by simpa using hterms), hstop,
      List.all_cons, hvalue, Bool.and_assoc]
    cases value <;> rfl

/-- A condition is read with the blanks around it, and decides whether the rest of the line is
executed. -/
theorem conditional_of_written {condition : Condition} {expected : Bool}
    (h : condition.Written m.script.encoding m.aliases text) (hbefore : Blank before)
    (hgap : Blank gap) (hb : Byte.isNameStart b = true)
    (hafter : AfterTerm condition.last.endsInNumber (gap ++ b :: rest))
    (hahead : m.script.ahead p = before ++ (text ++ (gap ++ b :: rest)))
    (hvalues : ∀ term ∈ condition.terms, (term.holds? m).isSome = true) :
    conditional expected { m with pc := p } =
      .ok (if condition.holds m == expected then .stay else .skipLine)
        { m with pc := p + (before ++ text ++ gap).length } := by
  obtain ⟨front, behind, rfl, hfirst, hothers⟩ := h
  obtain ⟨value, hvalue⟩ :=
    Option.isSome_iff_exists.mp (hvalues condition.first (List.mem_cons_self))
  have hahead' : m.script.ahead p = before ++ (front ++ (behind ++ (gap ++ b :: rest))) := by
    simpa only [List.append_assoc] using hahead
  have hread := conditionTerm_of_written hfirst hbefore
    (hothers.afterTerm fun hnil => by rw [Condition.last, hnil] at hafter; exact hafter) hahead'
    hvalue
  have hbehind : m.script.ahead (p + (before ++ front).length) = behind ++ (gap ++ b :: rest) :=
    Script.ahead_add_length (by simpa only [List.append_assoc] using hahead')
  let read : Machine := { m with pc := m.script.skipBlanks (p + (before ++ front).length) }
  have hterms : condition.others.length ≤ read.script.size - read.cursor + 1 := by
    have hroom := hothers.length_le_skipBlanks hbehind
    have hcursor : read.cursor ≤ m.script.skipBlanks (p + (before ++ front).length) :=
      Nat.min_le_left _ _
    show _ ≤ m.script.size - read.cursor + 1
    omega
  have hlast : ∀ last ∈ condition.others.getLast?,
      AfterTerm last.endsInNumber (gap ++ b :: rest) := by
    intro last hlast
    rwa [Condition.last, List.getLastD_eq_getLast?, Option.mem_def.mp hlast] at hafter
  have htail := conditionTail_of_joined value hothers hgap hb hlast hbehind
    (fun term hterm => hvalues term (List.mem_cons_of_mem _ hterm)) hterms
  have hstop : p + (before ++ front).length + (behind ++ gap).length =
      p + (before ++ (front ++ behind) ++ gap).length := by
    simp only [List.length_append]
    omega
  have hholds : condition.holds m =
      (value && condition.others.all fun term => term.holds? m == some true) := by
    rw [Condition.holds, Condition.terms, List.all_cons, hvalue]
    cases value <;> rfl
  rw [conditional, Action.bind_of_ok hread, Action.get_bind, Action.bind_of_ok htail, hstop,
    ← hholds]
  split <;> rfl

/-! ## Guarded statements -/

/-- The command that executes the rest of its line if a condition is as expected. -/
def guarding (expected : Bool) : Command :=
  if expected then .ifHolds else .notIf

private theorem execute_guarding (expected : Bool) :
    execute (guarding expected) = conditional expected := by
  cases expected <;> rfl

/-- Whether a term holds is decided by the variables, the aliases and the logs. -/
theorem Working.holds?_eq {n : Machine} (h : Working m n) (term : ConditionTerm) :
    term.holds? n = term.holds? m := by
  have hfiles : n.fileLog = m.fileLog := congrArg Setup.fileLog h.moved.setup
  have hlabels : n.labelLog = m.labelLog := congrArg Setup.labelLog h.moved.setup
  have htable : n.table = m.table := congrArg Setup.table h.moved.setup
  cases term <;> simp only [ConditionTerm.holds?, h.store_eq, h.script_eq, h.aliases_eq, hfiles,
    hlabels, htable]

/-- A machine that has only moved on plays the same game elsewhere. -/
theorem Working.comesTo {n : Machine} (h : Working m n) :
    ComesTo m { m.play with pc := n.pc, pendingHost := none } n := by
  have hmoved := h.moved
  rwa [MovedOn, h.pending] at hmoved

/-- **A condition ends where the guarded statement begins.** The next step executes `if` or `notif`;
behind the command stand a condition, blanks and the name of a built-in command. All operands of the
condition have values. Then the step comes to the first byte of that name if the condition is as
expected, and to the end of the line otherwise, and changes nothing else of the game. Only where the
name is `mod`, behind an integer expression and in front of what can start a term, it would be taken
for an operator. -/
theorem guarded_statement_reached {expected : Bool} {operands : Nat} {command : Command}
    {condition : Condition} {gap' word follow : Bytes}
    (hguard : m.upcoming? = some (guarding expected, operands))
    (hahead : m.script.ahead operands = gap ++ text ++ gap' ++ word ++ follow)
    (hcondition : condition.Written m.script.encoding m.aliases text)
    (hgap : Blank gap) (hgap' : Blank gap') (happart : gap' ≠ [])
    (hcommand : Command.ofName? word.toName = some command)
    (hfollow : ∀ b ∈ follow.head?, Byte.isNameByte b = false)
    (hmod : command = .mod → condition.last.endsInNumber = true → ∀ b ∈ follow.head?,
      (Byte.isBlank b || Byte.isSigil b || b == Byte.leftParen) = false)
    (hvalues : ∀ term ∈ condition.terms, (term.holds? m).isSome = true) :
    (m.serve .step).1 = .ok (.event .continued) ∧
      ComesTo m { m.play with
        pc :=
          let start := operands + (gap ++ text ++ gap').length
          if condition.holds m = expected then start else m.script.lineEnd start
        pendingHost := none } (m.serve .step).2 := by
  obtain ⟨begun, -, hworking, rfl, hstep⟩ := step_of_executing hguard
  obtain ⟨b, tail, rfl, hb⟩ := isNameStart_of_builtin hcommand
  have hscript := hworking.script_eq
  have hafter : AfterTerm condition.last.endsInNumber (gap' ++ b :: (tail ++ follow)) :=
    .statement hgap' happart hb fun hnumber =>
      not_remainderNext_of_builtin hcommand hfollow fun hname => hmod hname hnumber
  have hhere : begun.script.ahead begun.pc =
      gap ++ (text ++ (gap' ++ b :: (tail ++ follow))) := by
    rw [hscript, hahead]
    simp only [List.append_assoc, List.cons_append]
  have hread : conditional expected begun = _ :=
    conditional_of_written (by rw [hscript, hworking.aliases_eq]; exact hcondition) hgap hgap' hb
      hafter hhere fun term hterm => by rw [hworking.holds?_eq]; exact hvalues term hterm
  have hholds : condition.holds begun = condition.holds m := by
    simp only [Condition.holds, hworking.holds?_eq]
  rw [hholds] at hread
  rw [serve_step, hstep, located, execute_guarding, Action.bind_of_ok hread]
  by_cases hexpected : condition.holds m = expected
  · rw [if_pos hexpected, if_pos (beq_iff_eq.mpr hexpected)]
    exact ⟨rfl, (hworking.move _).comesTo⟩
  · rw [if_neg hexpected, if_neg (mt beq_iff_eq.mp hexpected), ← hscript]
    exact ⟨rfl, (hworking.move _).comesTo⟩

/-- A script whose second line is guarded by two terms. -/
def guardedLines : Script where
  bytes := (Bytes.ofText "mov %0,4\nif %0 >= 4 && $0 <> \"abc\" mov %1,1\nend\n").toArray
  encoding := .utf8

/-- The machine in front of the second line. -/
def deciding : Machine :=
  ((fresh guardedLines { variableSlots := 2 } .absent).serveAll [.step, .step]).2

/-- The integer variable 0. -/
def firstVariable : Tree :=
  .signed false (.single (.single (.read (.slot (.constant (.literal 0))))))

/-- A natural number as an expression. -/
def plainNumber (n : Nat) : Tree :=
  .signed false (.single (.single (.constant (.literal n))))

/-- A comparison of the variable with a number, with a blank on either side of the operator. -/
theorem firstVariable_compared {n : Nat} {digits token : Bytes} {comparison : Comparison}
    (e : Encoding) (aliases : Aliases) (hdigits : Numeral n digits)
    (htoken : (token, comparison) ∈ Comparison.tokens) :
    ConditionTerm.Written e aliases (.compareNumbers firstVariable comparison (plainNumber n))
      (Bytes.ofText "%0" ++ ([Byte.space] ++ token ++ [Byte.space]) ++ digits) := by
  have hzero : Numeral 0 (Bytes.ofText "0") := .decimal (by decide) rfl rfl
  have hleads : firstVariable.Leads aliases := by
    simp [Tree.Leads, Tree.lead?, firstVariable, Sum.first, Product.first]
  exact ⟨_, _, _, rfl, hleads, ⟨[], [], _, rfl, ⟨rfl, rfl⟩, _, rfl, hzero⟩,
    ⟨_, _, _, rfl, Blank.space, htoken, Blank.space⟩, ⟨[], [], _, rfl, ⟨rfl, rfl⟩, hdigits⟩⟩

/-- The variable is at least 4, and the first string variable is not `abc`. -/
def twoTerms : Condition where
  first := .compareNumbers firstVariable .ge (plainNumber 4)
  others := [.compareStrings ⟨.read (.constant (.literal 0)), []⟩ .ne
    ⟨.literal (Bytes.ofText "abc"), []⟩]

private theorem twoTerms_written (aliases : Aliases) :
    twoTerms.Written .utf8 aliases (Bytes.ofText "%0 >= 4 && $0 <> \"abc\"") := by
  have hblank : Blank [Byte.space] := Blank.space
  have hfour : Numeral 4 (Bytes.ofText "4") := .decimal (by decide) rfl rfl
  have hzero : Numeral 0 (Bytes.ofText "0") := .decimal (by decide) rfl rfl
  have hletters : Quotable .utf8 Byte.quote (Bytes.ofText "abc") := .of_narrow (by decide +kernel)
  have hnumbers := firstVariable_compared .utf8 aliases hfour
    (show (Bytes.ofText ">=", .ge) ∈ Comparison.tokens by decide)
  have hvariable : StringSum.Written .utf8 aliases ⟨.read (.constant (.literal 0)), []⟩
      (Bytes.ofText "$0") := ⟨_, [], rfl, ⟨_, rfl, hzero⟩, .nil⟩
  have hliteral : StringSum.Written .utf8 aliases ⟨.literal (Bytes.ofText "abc"), []⟩
      (Bytes.ofText "\"abc\"") := ⟨_, [], rfl, ⟨_, .inl rfl, hletters, rfl⟩, .nil⟩
  have hunequal : Compares .ne ([Byte.space] ++ Bytes.ofText "<>" ++ [Byte.space]) :=
    ⟨_, _, _, rfl, hblank, by decide, hblank⟩
  have htext : Bytes.ofText "%0 >= 4 && $0 <> \"abc\"" =
      Bytes.ofText "%0" ++ ([Byte.space] ++ Bytes.ofText ">=" ++ [Byte.space]) ++ Bytes.ofText "4" ++
        ([Byte.space] ++ ([0x26, 0x26] ++ ([Byte.space] ++ (Bytes.ofText "$0" ++
          ([Byte.space] ++ Bytes.ofText "<>" ++ [Byte.space]) ++ Bytes.ofText "\"abc\"" ++ [])))) := by
    decide
  exact ⟨_, _, htext, hnumbers,
    .cons hblank (.inl rfl) hblank ⟨_, _, _, rfl, trivial, hvariable, hunequal, hliteral⟩ .nil⟩

/-- Both terms hold, and the step comes to the command behind them. -/
theorem guarded_statement_reached_twoTerms :
    Reachable deciding ∧ deciding.upcoming? = some (guarding true, 11) ∧
    deciding.script.ahead 11 = [Byte.space] ++ Bytes.ofText "%0 >= 4 && $0 <> \"abc\"" ++
      [Byte.space] ++ Bytes.ofText "mov" ++ Bytes.ofText " %1,1\nend\n" ∧
    twoTerms.holds deciding = true ∧ (deciding.serve .step).1 = .ok (.event .continued) ∧
    (deciding.serve .step).2.pc = 35 := by
  have hreachable : Reachable deciding :=
    (Reachable.load (show load guardedLines { variableSlots := 2 } .absent = .ok _ from rfl)).serve _
      |>.serve _
  have hguard : deciding.upcoming? = some (guarding true, 11) := by decide +kernel
  have hahead : deciding.script.ahead 11 = [Byte.space] ++
      Bytes.ofText "%0 >= 4 && $0 <> \"abc\"" ++ [Byte.space] ++ Bytes.ofText "mov" ++
      Bytes.ofText " %1,1\nend\n" := by decide +kernel
  have hencoding : deciding.script.encoding = .utf8 := by decide +kernel
  have hholds : twoTerms.holds deciding = true := by decide +kernel
  have hcommand : Command.ofName? (Bytes.ofText "mov").toName = some .mov := by decide +kernel
  obtain ⟨hanswer, hcomes⟩ := guarded_statement_reached hguard hahead
    (hencoding ▸ twoTerms_written _) Blank.space Blank.space (by simp) hcommand
    (by decide +kernel) (by simp) (by decide +kernel)
  have hpc := congrArg Play.pc hcomes.play
  simp only [if_pos hholds] at hpc
  exact ⟨hreachable, hguard, hahead, hholds, hanswer, hpc⟩

/-- A script with a condition in front of the command `mod`. -/
def remainderLines : Script where
  bytes := (Bytes.ofText "mov %0,7\nif %0 > 3 mod %0, 2\nend\n").toArray
  encoding := .utf8

/-- The machine in front of the condition. -/
def dividing : Machine :=
  ((fresh remainderLines { variableSlots := 2 } .absent).serveAll [.step, .step]).2

/-- A script with a comparison of strings that begins with a label. -/
def labelLines : Script where
  bytes := (Bytes.ofText "if *a = \"*a\" mov %0,1\nend\n").toArray
  encoding := .utf8

/-- The machine in front of the comparison. -/
def naming : Machine :=
  fresh labelLines { variableSlots := 2 } .absent

/-- The command `mod` is taken for the operator: the step reads over it, although the condition
holds and the name of a command comes behind it. A comparison of strings that begins with a label is
taken for one of integers: the step stops in the middle of the condition. -/
theorem guarded_statement_missed :
    (Reachable dividing ∧ dividing.upcoming? = some (guarding true, 11) ∧
      dividing.script.ahead 11 = [Byte.space] ++ Bytes.ofText "%0 > 3" ++ [Byte.space] ++
        Bytes.ofText "mod" ++ Bytes.ofText " %0, 2\nend\n" ∧
      Condition.Written .utf8 dividing.aliases
        ⟨.compareNumbers firstVariable .gt (plainNumber 3), []⟩ (Bytes.ofText "%0 > 3") ∧
      Command.ofName? (Bytes.ofText "mod").toName = some .mod ∧
      Condition.holds dividing ⟨.compareNumbers firstVariable .gt (plainNumber 3), []⟩ = true ∧
      (dividing.serve .step).1 = .ok (.event .continued) ∧
      dividing.script.ahead (dividing.serve .step).2.pc = Bytes.ofText "2\nend\n") ∧
    (Reachable naming ∧ naming.upcoming? = some (guarding true, 2) ∧
      naming.script.ahead 2 = [Byte.space] ++ Bytes.ofText "*a = \"*a\"" ++ [Byte.space] ++
        Bytes.ofText "mov" ++ Bytes.ofText " %0,1\nend\n" ∧
      StringSum.Written .utf8 naming.aliases ⟨.label (Bytes.ofText "a"), []⟩ (Bytes.ofText "*a") ∧
      StringSum.Written .utf8 naming.aliases ⟨.literal (Bytes.ofText "*a"), []⟩
        (Bytes.ofText "\"*a\"") ∧
      ConditionTerm.holds? naming (.compareStrings ⟨.label (Bytes.ofText "a"), []⟩ .eq
        ⟨.literal (Bytes.ofText "*a"), []⟩) = some true ∧
      (naming.serve .step).1 = .ok (.event .continued) ∧
      naming.script.ahead (naming.serve .step).2.pc = Bytes.ofText "\"*a\" mov %0,1\nend\n") := by
  have hdividing : Reachable dividing :=
    (Reachable.load (show load remainderLines { variableSlots := 2 } .absent = .ok _ from rfl)).serve
      _ |>.serve _
  have hnaming : Reachable naming :=
    Reachable.load (show load labelLines { variableSlots := 2 } .absent = .ok _ from rfl)
  have hthree : Numeral 3 (Bytes.ofText "3") := .decimal (by decide) rfl rfl
  have hnumbers := firstVariable_compared .utf8 dividing.aliases hthree
    (show (Bytes.ofText ">", .gt) ∈ Comparison.tokens by decide)
  have hlabel : StringSum.Written .utf8 naming.aliases ⟨.label (Bytes.ofText "a"), []⟩
      (Bytes.ofText "*a") := ⟨_, [], rfl, ⟨rfl, _, _, rfl, by decide, by decide +kernel⟩, .nil⟩
  have hletters : Quotable .utf8 Byte.quote (Bytes.ofText "*a") := .of_narrow (by decide +kernel)
  have hliteral : StringSum.Written .utf8 naming.aliases ⟨.literal (Bytes.ofText "*a"), []⟩
      (Bytes.ofText "\"*a\"") := ⟨_, [], rfl, ⟨_, .inl rfl, hletters, rfl⟩, .nil⟩
  refine ⟨⟨hdividing, ?_, ?_, ⟨_, [], rfl, hnumbers, .nil⟩, ?_, ?_, ?_, ?_⟩, hnaming, ?_, ?_, hlabel,
    hliteral, ?_, ?_, ?_⟩
  all_goals decide +kernel

end NovelScript.Machine
