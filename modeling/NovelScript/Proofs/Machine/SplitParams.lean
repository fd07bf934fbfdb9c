import NovelScript.Proofs.Machine.GoingOn
import NovelScript.Proofs.Machine.Params

/-!
# Dividing the targets of a subroutine command

The targets to which the operands of a subroutine command are copied may be divided among several
statements. A part of the targets is read alike in the statement with all of them and in a statement
of its own, and the operand for each target is read at a place that does not depend on either. Where
the second statement ends, the first one goes on with the next part, and both machines agree on what
is copied next.
-/

namespace NovelScript.Machine

open NovelScript.Operand (Scope Cursor Level)
open NovelScript.Script (SameText)

variable {m n m' : Machine} {x y len j : Nat}

/-! ## The same target in two statements -/

private theorem pointerAt_eq {s : Script} (htext : SameText s s x y len) (hj : j < len) :
    pointerAt s (y + j) = pointerAt s (x + j) := by
  have hletter : ∀ {letter : UInt8}, Byte.isNameByte letter = true →
      s.holdsAt (y + j) (Byte.lower · == letter) = s.holdsAt (x + j) (Byte.lower · == letter) := by
    intro letter hname
    refine (htext.holdsAt (fun b hb => Byte.inExpression_of_isNameByte ?_) (Nat.le_of_lt hj)).1
    rw [← Byte.isNameByte_lower, beq_iff_eq.mp hb, hname]
  have hpercent : s.isAt (y + j + 1) Byte.percent = s.isAt (x + j + 1) Byte.percent :=
    (htext.isAt (by decide) hj).1
  rw [pointerAt, pointerAt, hpercent, hletter (by decide), hletter (by decide)]

/-- A pointer is asked for in both statements or in none of them. -/
theorem eatPointer_inStep (htext : SameText m.script m.script x y len) (h : Agrees m n)
    (hj : j < len)
    (hm : m.script.skipBlanks m.cursor = x + j) (hn : m.script.skipBlanks n.cursor = y + j)
    {pointer : Option ParamPointer} {m₁ : Machine} (hrun : eatPointer m = .ok pointer m₁) :
    m₁.script = m.script ∧ ∃ n₁ k, eatPointer n = .ok pointer n₁ ∧ Agrees m₁ n₁ ∧ j ≤ k ∧ k ≤ len ∧
      m.script.skipBlanks m₁.cursor = x + k ∧ m.script.skipBlanks n₁.cursor = y + k := by
  rw [eatPointer_eq, hm] at hrun
  obtain ⟨rfl, rfl⟩ := EStateM.Result.ok.inj hrun
  have hpos : n.script.skipBlanks n.cursor = y + j := by rw [h.script, hn]
  have hsame : pointerAt n.script (y + j) = pointerAt m.script (x + j) := by
    rw [h.script, pointerAt_eq htext hj]
  have hrun' := eatPointer_eq n
  rw [hpos, hsame] at hrun'
  cases hsome : (pointerAt m.script (x + j)).isSome with
  | false =>
    rw [hsome, if_neg Bool.false_ne_true] at hrun'
    rw [if_neg Bool.false_ne_true]
    exact ⟨rfl, n, j, hrun', h, Nat.le_refl j, Nat.le_of_lt hj, hm, hn⟩
  | true =>
    rw [hsome, if_pos rfl] at hrun'
    rw [if_pos rfl]
    have hpercent : m.script.isAt (x + j + 1) Byte.percent = true := by
      by_contra hnot
      rw [pointerAt, if_neg hnot] at hsome
      cases hsome
    have hstay : ∀ {pos}, m.script.isAt pos Byte.percent = true →
        m.script.skipBlanks (min pos m.script.size) = pos := by
      intro pos hat
      rw [Nat.min_eq_left (Nat.le_of_lt (Script.lt_size_of_isAt hat))]
      exact Script.advanceWhile_eq_self (Script.holdsAt_of_isAt hat)
    refine ⟨rfl, _, j + 1, hrun',
      ⟨h.script, h.store, h.aliases, h.strict, h.warningCount, h.params?⟩, Nat.le_succ j, hj, ?_, ?_⟩
    · exact hstay hpercent
    · have hpercent' : m.script.isAt (y + j + 1) Byte.percent = true :=
        (htext.isAt (by decide) hj).1.trans hpercent
      show m.script.skipBlanks (min (y + j + 1) n.script.size) = _
      rw [h.script]
      exact hstay hpercent'

/-- The same target is read in both statements. -/
theorem readVarRef_inStep (htext : SameText m.script m.script x y len) (h : Agrees m n)
    (hj : j ≤ len)
    (hm : m.script.skipBlanks m.cursor = x + j) (hn : m.script.skipBlanks n.cursor = y + j)
    {target : VariableRef} (hrun : readVarRef m = .ok target m') :
    m'.script = m.script ∧ ∃ n' k, readVarRef n = .ok target n' ∧ Agrees m' n' ∧ j < k ∧ k ≤ len ∧
      m'.pc = m.script.behindOperand (x + k) ∧ n'.pc = m.script.behindOperand (y + k) := by
  obtain ⟨after, journal, hread, hquiet, rfl⟩ := operand_eq_ok hrun
  have halike : m.scope.Alike n.scope x y len := by
    rw [h.scope]
    exact ⟨htext, rfl, rfl⟩
  have hread₀ : m.scope.varRef ⟨x + j, []⟩ = .ok target after := by
    rw [← hm]
    exact (m.scope.varRef_skipBlanks _).symm.trans hread
  obtain ⟨after', hread', k, hjk, hk, hafter, hafter', hwarnings⟩ :=
    halike.varRef.follow (c := ⟨x + j, []⟩) (d := ⟨y + j, []⟩)
      ⟨j, Nat.le_refl j, hj, rfl, rfl, rfl⟩ hread₀
  have hread₁ : n.scope.varRef ⟨n.cursor, []⟩ = .ok target after' := by
    rw [Scope.varRef_skipBlanks]
    show n.scope.varRef ⟨n.script.skipBlanks n.cursor, []⟩ = _
    rw [h.script, hn]
    exact hread'
  obtain ⟨journal', hrun'⟩ := operand_of_quiet hread₁ fun hstrict =>
    hwarnings.trans (hquiet (h.strict ▸ hstrict))
  refine ⟨rfl, _, k, hrun', ⟨h.script, h.store, h.aliases, h.strict, ?_, h.params?⟩, hjk, hk, ?_, ?_⟩
  · show n.warningCount + _ = m.warningCount + _
    rw [h.warningCount, hwarnings]
  · rw [← hafter]
  · rw [← hafter', ← h.script]

/-- The operand for this target is copied in both statements. -/
theorem copyParam_inStep (htext : SameText m.script m.script x y len) (h : Agrees m n)
    (hj : j < len)
    (hm : m.script.skipBlanks m.cursor = x + j) (hn : m.script.skipBlanks n.cursor = y + j)
    (hrun : copyParam m = .ok () m') :
    m'.script = m.script ∧ ∃ n' k, copyParam n = .ok () n' ∧ Agrees m' n' ∧ j < k ∧ k ≤ len ∧
      m'.pc = m.script.behindOperand (x + k) ∧ n'.pc = m.script.behindOperand (y + k) := by
  obtain ⟨pointer, target, params, found, after, m₁, m₂, m₃, m₄, hpointer, htarget, hkind, hparams,
    hread, hwarn, rfl⟩ := copyParam_eq_ok hrun
  obtain ⟨hscript₁, n₁, i, hpointer', h₁, hji, hi, hm₁, hn₁⟩ :=
    eatPointer_inStep htext h hj hm hn hpointer
  rw [← hscript₁] at htext hm₁ hn₁
  obtain ⟨hscript₂, n₂, k, htarget', h₂, hik, hk, hm₂, hn₂⟩ :=
    readVarRef_inStep htext h₁ hi hm₁ hn₁ htarget
  obtain ⟨hreads₃, hpc₃, n₃, hread', h₃, hpc₃', hreads₃'⟩ :=
    (portable_readParamIfAny pointer target).atAddress h₂ hread
  obtain ⟨hreads₄, hpc₄, n₄, hwarn', h₄, hpc₄', hreads₄'⟩ := h₃.warnUnless hwarn
  have hreads := hreads₃.trans hreads₄
  have hparams' : n₂.nesting.params? = some params := h₂.params?.trans hparams
  refine ⟨hreads.script.trans (hscript₂.trans hscript₁), _, k,
    copyParam_of_ok hpointer' htarget' hkind hparams' hread' hwarn',
    ⟨h₄.script, h₄.store, h₄.aliases, h₄.strict, h₄.warningCount, ?_⟩, by omega, hk, ?_, ?_⟩
  · rw [← hreads.nesting] at hparams
    rw [← (hreads₃'.trans hreads₄').nesting] at hparams'
    exact (params?_setParams hparams' after).trans (params?_setParams hparams after).symm
  · rw [← hscript₁]
    exact hpc₄.trans (hpc₃.trans hm₂)
  · rw [← hscript₁]
    exact hpc₄'.trans (hpc₃'.trans hn₂)

/-- Behind a target both statements go on at the same byte, or the part of the targets is at its
end. -/
theorem behindOperand_inStep {s : Script} (htext : SameText s s x y len) (hj : j ≤ len)
    (hright : s.isAt (y + len) Byte.comma = false) :
    (∃ k, j ≤ k ∧ k ≤ len ∧ s.behindOperand (x + j) = x + k ∧ s.behindOperand (y + j) = y + k) ∨
      (s.isAt (x + len) Byte.comma = true ∧
        s.behindOperand (x + j) = s.skipBlanks (x + len + 1) ∧ s.behindOperand (y + j) = y + len) := by
  obtain ⟨k, hjk, hk, hx, hy⟩ := htext.skipBlanks hj
  have hstayY : s.skipBlanks (y + k) = y + k := by rw [← hy, Script.skipBlanks_skipBlanks]
  have hstayX : s.skipBlanks (x + k) = x + k := by rw [← hx, Script.skipBlanks_skipBlanks]
  rw [Script.behindOperand, Script.behindOperand, hx, hy, Script.eat, Script.eat]
  rcases Nat.lt_or_eq_of_le hk with hlt | rfl
  · -- Inside the part of the targets the bytes are the same.
    have hsame : s.isAt (y + k) Byte.comma = s.isAt (x + k) Byte.comma := by
      rw [Script.isAt, Script.isAt, htext.byte k hlt]
    rw [hsame]
    split
    · obtain ⟨l, hkl, hl, hx', hy'⟩ := htext.skipBlanks (show k + 1 ≤ len from hlt)
      exact .inl ⟨l, by omega, hl, hx', hy'⟩
    · exact .inl ⟨k, hjk, hk, hstayX, hstayY⟩
  · rw [hright, if_neg Bool.false_ne_true]
    split
    · next hcomma => exact .inr ⟨hcomma, rfl, hstayY⟩
    · exact .inl ⟨k, hjk, hk, hstayX, hstayY⟩

/-! ## A part of the targets -/

/-- The same part of the targets stands at two places, and at the second one the statement ends
behind it. -/
structure SamePart (s : Script) (x y len : Nat) : Prop extends SameText s s x y len where
  /-- The part belongs to one statement. -/
  plain : ∀ j < len, s.atStatementEnd (x + j) = false
  /-- At the second place the statement ends. -/
  ends : s.atStatementEnd (y + len) = true

private theorem isAt_comma_of_atStatementEnd {s : Script} {pos : Nat}
    (h : s.atStatementEnd pos = true) : s.isAt pos Byte.comma = false := by
  rw [← Bool.not_eq_true]
  intro hcomma
  rw [Script.atStatementEnd, beq_iff_eq.mp hcomma] at h
  cases h

/-- A target begins with a byte that expressions may hold. -/
theorem inExpression_of_copyParam (h : copyParam m = .ok () m') :
    m.script.holdsAt (m.script.skipBlanks m.cursor) Byte.inExpression = true := by
  obtain ⟨pointer, target, params, found, after, m₁, m₂, m₃, m₄, hpointer, htarget, -⟩ :=
    copyParam_eq_ok h
  rw [eatPointer_eq] at hpointer
  obtain ⟨-, hm₁⟩ := EStateM.Result.ok.inj hpointer
  cases hsome : pointerAt m.script (m.script.skipBlanks m.cursor) with
  | none =>
    rw [hsome] at hm₁
    cases hm₁
    obtain ⟨read, journal, hread, -⟩ := operand_eq_ok htarget
    have hsigil : m.script.holdsAt (m.script.skipBlanks m.cursor) Byte.isSigil = true :=
      Scope.holdsAt_of_varRef hread
    rw [Script.holdsAt, Option.any_eq_true] at hsigil ⊢
    exact hsigil.imp fun b hb => hb.imp_right Byte.inExpression_of_isSigil
  | some pointer =>
    have hletter : ∃ letter, Byte.isNameByte letter = true ∧
        m.script.holdsAt (m.script.skipBlanks m.cursor) (Byte.lower · == letter) = true := by
      unfold pointerAt at hsome
      split_ifs at hsome with hpercent hint hstr
      · exact ⟨0x69, by decide, hint⟩
      · exact ⟨0x73, by decide, hstr⟩
    obtain ⟨letter, hname, hletter⟩ := hletter
    rw [Script.holdsAt, Option.any_eq_true] at hletter ⊢
    refine hletter.imp fun b hb => hb.imp_right fun hsame => Byte.inExpression_of_isNameByte ?_
    rw [← Byte.isNameByte_lower, beq_iff_eq.mp hsame, hname]

/-- Without another target nothing is copied. -/
theorem copyParams_of_not_hasMore (h : m.hasMore = false) (targets : Nat) :
    copyParams targets m = .ok () m := by
  cases targets with
  | zero => rfl
  | succ targets =>
    rw [copyParams, Action.get_bind, h]
    rfl

private theorem hasMore_eq {s : Script} {pos : Nat} (hs : m.script = s)
    (hpos : s.skipBlanks m.cursor = pos) : m.hasMore = !s.atStatementEnd pos := by
  rw [hasMore, hs, hpos]

/-- A machine that has come behind an operand stands there. -/
theorem cursor_of_behindOperand {s : Script} {pos : Nat} (hs : m.script = s) (hpos : pos ≤ s.size)
    (hpc : m.pc = s.behindOperand pos) :
    m.cursor = s.behindOperand pos ∧ s.skipBlanks m.cursor = m.cursor := by
  have hcursor : m.cursor = s.behindOperand pos := by
    rw [cursor, hs, hpc, Nat.min_eq_left (Script.behindOperand_le_size hpos)]
  refine ⟨hcursor, ?_⟩
  rw [hcursor, Script.behindOperand, Script.skipBlanks_skipBlanks]

/-- Behind a target both machines stand at the same byte of the part, or the part is at its end, and
the first machine stands behind the comma that follows. -/
theorem copyParam_inPart {s : Script} (hs : m.script = s) (hpart : SamePart s x y len)
    (h : Agrees m n)
    (hj : j < len) (hm : s.skipBlanks m.cursor = x + j) (hn : s.skipBlanks n.cursor = y + j)
    (hrun : copyParam m = .ok () m') :
    m'.script = s ∧ ∃ n', copyParam n = .ok () n' ∧ Agrees m' n' ∧
      s.skipBlanks m'.cursor = m'.cursor ∧ s.skipBlanks n'.cursor = n'.cursor ∧
      ((∃ k, j < k ∧ k ≤ len ∧ m'.cursor = x + k ∧ n'.cursor = y + k) ∨
        (s.isAt (x + len) Byte.comma = true ∧ m'.cursor = s.skipBlanks (x + len + 1) ∧
          n'.cursor = y + len)) := by
  subst hs
  obtain ⟨hscript, n', k, hcopy, hagrees, hjk, hk, hpc, hpc'⟩ :=
    copyParam_inStep hpart.toSameText h hj hm hn hrun
  have hx := hpart.leftSize
  have hy := hpart.rightSize
  obtain ⟨hat, hstop⟩ := cursor_of_behindOperand hscript (show x + k ≤ _ by omega) hpc
  obtain ⟨hat', hstop'⟩ :=
    cursor_of_behindOperand (hagrees.script.trans hscript) (show y + k ≤ _ by omega) hpc'
  refine ⟨hscript, n', hcopy, hagrees, hstop, hstop', ?_⟩
  rcases behindOperand_inStep hpart.toSameText hk (isAt_comma_of_atStatementEnd hpart.ends) with
    ⟨l, hkl, hl, hleft, hright⟩ | ⟨hcomma, hleft, hright⟩
  · exact .inl ⟨l, by omega, hl, hat.trans hleft, hat'.trans hright⟩
  · exact .inr ⟨hcomma, hat.trans hleft, hat'.trans hright⟩

/-- Where the part is at its end, there is no other target in either statement. -/
theorem not_hasMore_at_end {s : Script} (hs : m.script = s) (hpart : SamePart s x y len)
    (h : Agrees m n) (hm : s.skipBlanks m.cursor = x + len) (hn : s.skipBlanks n.cursor = y + len)
    {targets : Nat} (hrun : copyParams (targets + 1) m = .ok () m') :
    m.hasMore = false ∧ n.hasMore = false := by
  refine ⟨?_, by rw [hasMore_eq (h.script.trans hs) hn, hpart.ends, Bool.not_true]⟩
  rw [← Bool.not_eq_true]
  intro hmore
  rw [copyParams_succ targets hmore] at hrun
  obtain ⟨_, m₁, hcopy, -⟩ := Action.exists_of_run_eq_ok hrun
  have hin := inExpression_of_copyParam hcopy
  rw [hs, hm, hpart.left] at hin
  cases hin

/-- Copying to all targets goes on in the second machine, from the end of a part on, and comes to
the third one. -/
structure CopiesRest (s : Script) (stop : Nat) (m : Machine) (targets : Nat) (m' : Machine) :
    Prop where
  /-- The script is the same. -/
  script : m.script = s
  /-- Operands are copied to the targets that are left. -/
  run : copyParams targets m = .ok () m'
  /-- If the part was the last one, nothing is left. -/
  atEnd : s.atStatementEnd stop = true → m = m' ∧ m'.hasMore = false
  /-- Otherwise the next part follows the comma. -/
  atComma : s.isAt stop Byte.comma = true →
    m.cursor = s.skipBlanks (stop + 1) ∧ s.size < m.cursor + targets

/-- If operands are copied to all targets in the first statement, then so they are to this part of
the targets in the second one, and the first one goes on with the next part. -/
theorem copyParams_part {s : Script} (hs : m.script = s) (hpart : SamePart s x y len)
    (h : Agrees m n)
    (hj : j ≤ len) (hm : s.skipBlanks m.cursor = x + j) (hn : s.skipBlanks n.cursor = y + j)
    {targets targets' : Nat} (htargets : s.size < m.cursor + targets)
    (htargets' : s.size < n.cursor + targets') (hrun : copyParams targets m = .ok () m') :
    ∃ n' m₁ targets₁, copyParams targets' n = .ok () n' ∧ s.skipBlanks n'.cursor = y + len ∧
      Agrees m₁ n' ∧ CopiesRest s (x + len) m₁ targets₁ m' := by
  -- Every target that is copied leaves less of the part.
  induction targets generalizing m n j targets' with
  | zero =>
    have hle : m.cursor ≤ s.size := hs ▸ Nat.min_le_right _ _
    omega
  | succ targets ih =>
    have hs' : n.script = s := h.script.trans hs
    have hcursor := s.le_skipBlanks m.cursor
    have hcursor' := s.le_skipBlanks n.cursor
    rcases Nat.lt_or_eq_of_le hj with hlt | rfl
    · have hmore : m.hasMore = true := by rw [hasMore_eq hs hm, hpart.plain j hlt, Bool.not_false]
      have hmore' : n.hasMore = true := by
        rw [hasMore_eq hs' hn, Script.atStatementEnd, hpart.byte j hlt, ← Script.atStatementEnd,
          hpart.plain j hlt, Bool.not_false]
      rw [copyParams_succ targets hmore] at hrun
      obtain ⟨_, m₁, hcopy, hrun⟩ := Action.exists_of_run_eq_ok hrun
      obtain ⟨targets', rfl⟩ : ∃ i, targets' = i + 1 := by
        have hle : n.cursor ≤ s.size := hs' ▸ Nat.min_le_right _ _
        exact ⟨targets' - 1, by omega⟩
      obtain ⟨hscript, n₁, hcopy', hagrees, hstop, hstop', hwhere⟩ :=
        copyParam_inPart hs hpart h hlt hm hn hcopy
      rw [copyParams_succ targets' hmore', Action.bind_of_ok hcopy']
      obtain ⟨k, hjk, hk, hat, hat'⟩ | ⟨hcomma, hat, hat'⟩ := hwhere
      · exact ih hscript hagrees hk (hstop.trans hat) (hstop'.trans hat') (by omega) (by omega) hrun
      · have hdone : n₁.hasMore = false := by
          rw [hasMore_eq (hagrees.script.trans hscript) (hstop'.trans hat'), hpart.ends, Bool.not_true]
        have hnext := s.le_skipBlanks (x + len + 1)
        refine ⟨n₁, m₁, targets, copyParams_of_not_hasMore hdone _, hstop'.trans hat', hagrees,
          hscript, hrun, fun hend => ?_, fun _ => ⟨hat, by omega⟩⟩
        cases (isAt_comma_of_atStatementEnd hend).symm.trans hcomma
    · obtain ⟨hmore, hdone⟩ := not_hasMore_at_end hs hpart h hm hn hrun
      rw [copyParams_of_not_hasMore hmore] at hrun
      cases hrun
      refine ⟨n, _, 0, copyParams_of_not_hasMore hdone _, hn, h, hs, rfl, fun _ => ⟨rfl, hmore⟩,
        fun hcomma => ?_⟩
      rw [hasMore_eq hs hm, Bool.not_eq_false'] at hmore
      cases (isAt_comma_of_atStatementEnd hmore).symm.trans hcomma

/-! ## Statements -/

/-- The operands of a statement at this address are `text`, up to the end of the statement. -/
structure OperandsAre (s : Script) (text : Bytes) (pos : Nat) : Prop where
  /-- The text is next. -/
  stands : text <+: s.ahead pos
  /-- The statement does not end in it. -/
  plain : ∀ b ∈ text, b ∉ [Byte.newline, Byte.colon, Byte.semicolon]
  /-- The statement ends behind it. -/
  ended : s.atStatementEnd (pos + text.length) = true

instance (s : Script) (text : Bytes) (pos : Nat) : Decidable (OperandsAre s text pos) :=
  -- byte by byte of the text, not by trying all bytes there are
  letI := List.decidableBAll (· ∉ [Byte.newline, Byte.colon, Byte.semicolon]) text
  decidable_of_iff (text <+: s.ahead pos ∧
      (∀ b ∈ text, b ∉ [Byte.newline, Byte.colon, Byte.semicolon]) ∧
      s.atStatementEnd (pos + text.length) = true)
    ⟨fun ⟨stands, plain, ended⟩ => ⟨stands, plain, ended⟩, fun h => ⟨h.stands, h.plain, h.ended⟩⟩

/-- Where the operands of the statement at the current address begin. -/
def operands (m : Machine) : Nat :=
  (m.script.statementAt m.pc m.pretextHook.isSome).next

/-- The next step executes a statement that copies operands to the targets in `text`, which begins
at `start` and reaches up to the end of the statement. -/
structure AtGetparam (text : Bytes) (start : Nat) (m : Machine) : Prop where
  /-- The next step executes the statement at the current address. -/
  arrived : m.ArrivedAt m.pc
  /-- The statement copies operands. -/
  command : m.statementCommand? = some (.getparam, m.operands)
  /-- Behind the command there are only blanks in front of the targets. -/
  blanks : m.script.skipBlanks start = m.script.skipBlanks m.operands
  /-- These are the targets. -/
  targets : OperandsAre m.script text start

instance (text : Bytes) (start : Nat) (m : Machine) : Decidable (m.AtGetparam text start) :=
  decidable_of_iff ((m.pendingHost = none ∧ m.ended = false ∧ m.inText = false) ∧
      m.statementCommand? = some (.getparam, m.operands) ∧
      m.script.skipBlanks start = m.script.skipBlanks m.operands ∧ OperandsAre m.script text start)
    ⟨fun ⟨⟨pending, running, statement⟩, command, blanks, targets⟩ =>
      ⟨⟨rfl, pending, running, statement⟩, command, blanks, targets⟩,
    fun h =>
      ⟨⟨h.arrived.pending, h.arrived.running, h.arrived.statement⟩, h.command, h.blanks, h.targets⟩⟩

variable {text part : Bytes} {start : Nat}

private theorem AtGetparam.start_le_size (h : m.AtGetparam text start) : start ≤ m.script.size :=
  calc
    start ≤ m.script.skipBlanks start := m.script.le_skipBlanks start
    _ = m.script.skipBlanks m.operands := h.blanks
    _ ≤ m.script.size := Script.skipBlanks_le_size (operands_le_size h.command)

/-- The step executes the command at its targets. -/
theorem AtGetparam.step_eq (h : m.AtGetparam text start) :
    ∃ begun, Agrees m begun ∧ begun.ArrivedAt m.operands ∧
      m.script.skipBlanks begun.cursor = m.script.skipBlanks start ∧
      step m = located (execute .getparam >>= complete) begun := by
  obtain ⟨word, hkind, hresolve, -⟩ := word_of_statementCommand? h.command
  have hinside : m.operands ≤ m.script.size := operands_le_size h.command
  refine ⟨m.atCommand word, ⟨rfl, rfl, rfl, rfl, rfl, rfl⟩,
    ⟨rfl, h.arrived.pending, h.arrived.running, h.arrived.statement⟩, ?_, ?_⟩
  · rw [h.blanks, cursor]
    exact congrArg m.script.skipBlanks (Nat.min_eq_left hinside)
  · rw [h.arrived.step_eq, located, runStatement_of_builtin hkind hresolve]
    rfl

/-- Once operands are copied to all targets, the statement is at its end. -/
theorem complete_of_copyParams {after : Machine}
    (hcopy : copyParams (m.script.size - m.cursor + 1) m = .ok () after)
    (hdone : after.hasMore = false) :
    (execute .getparam >>= complete) m =
      .ok .continued { after with pc := after.script.afterStatement after.cursor } := by
  have hexecute : execute .getparam m = .ok .advance after := by
    show getParams m = _
    rw [getParams, Action.get_bind, Action.bind_of_ok hcopy]
    rfl
  rw [Action.bind_of_ok hexecute]
  exact Action.bind_of_ok (endStatement_of_hasMore_eq_false hdone) _

/-- A part of the targets in front of what may follow it, and in a statement of its own. -/
theorem samePart_of_operandsAre {s : Script} {rest : Bytes} (hy : OperandsAre s part y)
    (hysize : y ≤ s.size) (hahead : s.ahead x = part ++ rest) (hx : x ≤ s.size)
    (hgoesOn : s.atStatementEnd (x + part.length) = true ∨
      s.isAt (x + part.length) Byte.comma = true) : SamePart s x y part.length := by
  obtain ⟨behind, hstands⟩ := hy.stands
  have hbehind : Script.EndsExpression behind :=
    Script.ahead_add_length hstands.symm ▸ Script.endsExpression_of_atStatementEnd hy.ended
  have hrest : Script.EndsExpression rest := by
    rw [← Script.ahead_add_length hahead]
    rcases hgoesOn with hend | hcomma
    · exact Script.endsExpression_of_atStatementEnd hend
    · intro b hb
      rw [← Script.byte?_eq_head?, beq_iff_eq.mp hcomma] at hb
      cases hb
      decide
  exact {
    toSameText := Script.sameText_of_ahead hahead hstands.symm hrest hbehind hx hysize
    plain := fun j hj => by
      have hplain := hy.plain part[j] (List.getElem_mem hj)
      simp only [List.mem_cons, List.not_mem_nil, or_false, not_or] at hplain
      rw [Script.atStatementEnd, Script.byte?_add_of_ahead hahead hj, List.getElem?_eq_getElem hj]
      simp [hplain]
    ends := hy.ended }

/-- The end of the statement is where the scan for it goes on. -/
theorem afterStatement_of_skipBlanks {s : Script} {pos stop : Nat} (h : s.skipBlanks pos = stop) :
    s.afterStatement pos = s.afterStatement stop := by
  rw [Script.afterStatement, Script.afterStatement, ← h, Script.skipBlanks_skipBlanks]

/-- A statement of its own copies operands to one part of the targets, and the statement with all of
them goes on with what follows this part. -/
theorem step_part {s : Script} {rest : Bytes} {targets : Nat} (hs : m.script = s)
    (hmn : Agrees m n) (hn : n.AtGetparam part start) (hahead : s.ahead x = part ++ rest)
    (hx : x ≤ s.size)
    (hgoesOn : s.atStatementEnd (x + part.length) = true ∨
      s.isAt (x + part.length) Byte.comma = true)
    (hstart : s.skipBlanks m.cursor = s.skipBlanks x) (htargets : s.size < m.cursor + targets)
    (hrun : copyParams targets m = .ok () m') :
    ∃ n' m₁ targets₁, step n = .ok .continued n' ∧
      n'.ArrivedAt (n.script.afterStatement (start + part.length)) ∧ GoesOnward n n' ∧
      Agrees m₁ n' ∧ CopiesRest s (x + part.length) m₁ targets₁ m' := by
  have hs' : n.script = s := hmn.script.trans hs
  have htext : OperandsAre s part start := hs' ▸ hn.targets
  have hpart := samePart_of_operandsAre htext (hs' ▸ hn.start_le_size) hahead hx hgoesOn
  obtain ⟨begun, hbegun, harrived, hcursor, hstep⟩ := hn.step_eq
  rw [hs'] at hcursor
  obtain ⟨j, -, hj, hleft, hright⟩ := hpart.toSameText.skipBlanks (Nat.zero_le part.length)
  have hscript : begun.script = s := hbegun.script.trans hs'
  have hmore : s.size < begun.cursor + (begun.script.size - begun.cursor + 1) := by
    rw [hscript]
    omega
  obtain ⟨after, m₁, targets₁, hcopy, hstop, hagrees, hrest⟩ :=
    copyParams_part hs hpart (hmn.trans hbegun) hj (hstart.trans hleft)
      (hcursor.trans hright) htargets hmore hrun
  obtain ⟨⟨nesting, hreads⟩, honward⟩ := goesOnward_of_copyParams hcopy
  have hafter : after.script = s := hreads.script.trans hscript
  have hdone : after.hasMore = false := by
    rw [hasMore_eq hafter hstop, hpart.ends, Bool.not_true]
  have hpc : after.script.afterStatement after.cursor =
      n.script.afterStatement (start + part.length) := by
    rw [hafter, hs', afterStatement_of_skipBlanks hstop]
  have hcomplete := complete_of_copyParams hcopy hdone
  rw [hpc] at hcomplete
  have hmoved := hreads.arrivedAt (show ({ begun with nesting } : Machine).ArrivedAt n.operands from
    ⟨harrived.pc, harrived.pending, harrived.running, harrived.statement⟩)
  refine ⟨{ after with pc := n.script.afterStatement (start + part.length) }, m₁, targets₁, ?_,
    ⟨rfl, hmoved.pending, hmoved.running, hmoved.statement⟩, ?_, hagrees.move _, hrest⟩
  · rw [hstep, located, hcomplete]
  · intro params hparams
    rw [← hbegun.params?] at hparams
    rw [← hbegun.script]
    exact honward params hparams

/-! ## All parts -/

/-- Statements with the given parts of the targets are executed one after another. Each of them
succeeds, moves the next operand onward in the calling statement, and leads to what stands behind
it; whatever is executed before the next one may open frames and go elsewhere. In the end the
variables, the next operand and the number of warnings are those of `last`. -/
def CopiesParts (last : Machine) : (parts : List Bytes) → (m : Machine) → Prop
  | [], m => m.store = last.store ∧ m.nesting.params? = last.nesting.params? ∧
      m.warningCount = last.warningCount
  | part :: parts, m => ∀ n start, Agrees m n → n.AtGetparam part start →
      ∃ n', step n = .ok .continued n' ∧
        n'.ArrivedAt (n.script.afterStatement (start + part.length)) ∧ GoesOnward n n' ∧
        CopiesParts last parts n'

variable {last : Machine} {parts : List Bytes}

private theorem CopiesParts.congr (h : CopiesParts last parts m) (hmn : Agrees m n) :
    CopiesParts last parts n := by
  cases parts with
  | nil => exact ⟨hmn.store.trans h.1, hmn.params?.trans h.2.1, hmn.warningCount.trans h.2.2⟩
  | cons part parts => exact fun o start ho => h o start (hmn.trans ho)

/-- From the start of the first part on, the parts are copied one after another. -/
theorem copiesParts_of_copyParams {s : Script} {rest : Bytes} (hs : m.script = s) (hne : parts ≠ [])
    (hahead : s.ahead x = [Byte.comma].intercalate parts ++ rest) (hx : x ≤ s.size)
    (hend : s.atStatementEnd (x + ([Byte.comma].intercalate parts).length) = true)
    (hstart : s.skipBlanks m.cursor = s.skipBlanks x) {targets : Nat}
    (htargets : s.size < m.cursor + targets) (hrun : copyParams targets m = .ok () m')
    (hlast : endStatement m' = .ok () last) : CopiesParts last parts m := by
  -- Behind a part the statement with all targets has the others in front of it.
  induction parts generalizing m x targets with
  | nil => exact absurd rfl hne
  | cons part parts ih =>
    intro n start hn hoperands
    cases parts with
    | nil =>
      rw [List.intercalate_singleton] at hahead hend
      obtain ⟨n', m₁, _, hstep, hnext, honward, hagrees, hrest⟩ :=
        step_part hs hn hoperands hahead hx (.inl hend) hstart htargets hrun
      obtain ⟨rfl, hmore⟩ := hrest.atEnd hend
      rw [endStatement_of_hasMore_eq_false hmore] at hlast
      cases hlast
      exact ⟨n', hstep, hnext, honward, hagrees.store, hagrees.params?, hagrees.warningCount⟩
    | cons next parts =>
      rw [List.intercalate_cons_cons, List.append_assoc] at hahead hend
      rw [List.append_assoc] at hahead
      have hcomma : s.isAt (x + part.length) Byte.comma = true := by
        rw [Script.isAt, Script.byte?_eq_head?, Script.ahead_add_length hahead]
        rfl
      obtain ⟨n', m₁, targets₁, hstep, hnext, honward, hagrees, hrest⟩ :=
        step_part hs hn hoperands hahead hx (.inr hcomma) hstart htargets hrun
      obtain ⟨hcursor, htargets₁⟩ := hrest.atComma hcomma
      have hbehind : s.ahead (x + part.length + 1) =
          [Byte.comma].intercalate (next :: parts) ++ rest := by
        rw [Script.ahead_add, Script.ahead_add_length hahead]
        rfl
      refine ⟨n', hstep, hnext, honward, CopiesParts.congr ?_ hagrees⟩
      refine ih hrest.script (List.cons_ne_nil _ _) hbehind (Script.lt_size_of_isAt hcomma) ?_ ?_
        htargets₁ hrest.run
      · rw [List.length_append, List.length_append, List.length_singleton] at hend
        rwa [show x + part.length + 1 + ([Byte.comma].intercalate (next :: parts)).length =
          x + (part.length + (1 + ([Byte.comma].intercalate (next :: parts)).length)) by omega]
      · rw [hcursor, Script.skipBlanks_skipBlanks]

/-- **Operands are copied alike however the targets are divided among statements.** If the statement
with all targets succeeds, then so do statements with a part of them each, one after another,
wherever they stand and whatever frames have been opened above the one of the subroutine command.
They leave the same variables and the same next operand, and give as many warnings. The next operand
only moves onward in the calling statement. -/
theorem getparam_split (hparts : parts ≠ [])
    (hm : m.AtGetparam ([Byte.comma].intercalate parts) start) (hrun : step m = .ok .continued m') :
    GoesOnward m m' ∧ CopiesParts m' parts m := by
  obtain ⟨begun, hbegun, -, hcursor, hstep⟩ := hm.step_eq
  have hended := located_eq_ok (hstep.symm.trans hrun)
  obtain ⟨outcome, after, hexecute, hcomplete⟩ := Action.exists_of_run_eq_ok hended
  replace hexecute : getParams begun = .ok outcome after := hexecute
  rw [getParams, Action.get_bind] at hexecute
  obtain ⟨_, copied, hcopy, hadvance⟩ := Action.exists_of_run_eq_ok hexecute
  cases hadvance
  obtain ⟨_, ended, hend, hcontinued⟩ := Action.exists_of_run_eq_ok hcomplete
  cases hcontinued
  have hcopies : ∀ {parts : List Bytes}, parts ≠ [] →
      m.AtGetparam ([Byte.comma].intercalate parts) start → CopiesParts m' parts m := by
    intro parts hparts hm
    obtain ⟨rest, hahead⟩ := hm.targets.stands
    have hbehind : CopiesParts m' parts begun :=
      copiesParts_of_copyParams hbegun.script hparts hahead.symm hm.start_le_size hm.targets.ended
        hcursor (by rw [hbegun.script]; omega) hcopy hend
    exact hbehind.congr hbegun.symm
  refine ⟨?_, hcopies hparts hm⟩
  -- The statement with all targets is one of its own parts.
  have hwhole := hcopies (List.cons_ne_nil _ _) (by rwa [List.intercalate_singleton])
  obtain ⟨n', hstep', -, honward, -⟩ := hwhole m start (.refl m) hm
  cases hrun.symm.trans hstep'
  exact honward

/-- A subroutine command that copies its operands in one statement, and behind it once more in two
statements, the second of them in a subroutine. -/
def pairScript : Script where
  bytes := (Bytes.ofText ("*define\ndefsub pair\npair 5,$%1,\"x\"\n*pair\n" ++
    "getparam %1,s%2,$3\ngetparam %1:gosub *rest\n*rest\ngetparam s%2,$3\n")).toArray
  encoding := .utf8

/-- The machine in front of the first of these statements. -/
def inPair : Machine :=
  ((fresh pairScript { variableSlots := 4 } .absent).serveAll (List.replicate 7 .step)).2

/-- The machine in front of the other ones. -/
def behindPair : Machine :=
  { inPair with pc := 60 }

/-- The machine that has executed the first of the other ones, and has entered the subroutine. -/
def inRest : Machine :=
  (behindPair.serveAll (List.replicate 4 .step)).2

/-- The operand for the second target is looked up by the number that was copied to the first
one. -/
theorem getparam_split_over_gosub :
    inPair.AtGetparam (Bytes.ofText "%1,s%2,$3") 50 ∧ behindPair.AtGetparam (Bytes.ofText "%1") 69 ∧
      inRest.AtGetparam (Bytes.ofText "s%2,$3") 99 ∧
      inRest.nesting.depth = inPair.nesting.depth + 1 ∧
      ∃ copied last, step inPair = .ok .continued copied ∧ step inRest = .ok .continued last ∧
        copied.store.int 1 = 5 ∧ copied.store.int 2 = 5 ∧ copied.store.str 3 = Bytes.ofText "x" ∧
        last.store = copied.store ∧ last.nesting.params? = copied.nesting.params? ∧
        last.warningCount = copied.warningCount := by
  -- One evaluation for all that is looked at, so that the machines are run once.
  obtain ⟨⟨hall, hfirst, hrest, hdepth⟩, hfirstStep, hagreesAfter, hpairStep, hvalues⟩ :
      (inPair.AtGetparam (Bytes.ofText "%1,s%2,$3") 50 ∧
        behindPair.AtGetparam (Bytes.ofText "%1") 69 ∧
        inRest.AtGetparam (Bytes.ofText "s%2,$3") 99 ∧
        inRest.nesting.depth = inPair.nesting.depth + 1) ∧
      (behindPair.serve .step).1 = .ok (.event .continued) ∧
      Agrees (behindPair.serve .step).2 inRest ∧
      (inPair.serve .step).1 = .ok (.event .continued) ∧
      (inPair.serve .step).2.store.int 1 = 5 ∧ (inPair.serve .step).2.store.int 2 = 5 ∧
      (inPair.serve .step).2.store.str 3 = Bytes.ofText "x" := by decide +kernel
  have hagrees : ∀ n, step behindPair = .ok .continued n → Agrees n inRest := by
    intro n hstep
    have hgoes := hstep.symm.trans (step_of_serve_eq_continued hfirstStep)
    rw [(EStateM.Result.ok.inj hgoes).2]
    exact hagreesAfter
  have hrun : step inPair = .ok .continued (inPair.serve .step).2 :=
    step_of_serve_eq_continued hpairStep
  obtain ⟨-, hsplit⟩ := getparam_split (List.cons_ne_nil _ _)
    (show inPair.AtGetparam ([Byte.comma].intercalate [Bytes.ofText "%1", Bytes.ofText "s%2,$3"]) 50
      from hall) hrun
  obtain ⟨n, hstep, -, -, hsplit⟩ := hsplit behindPair 69 ((Agrees.refl inPair).move 60) hfirst
  obtain ⟨last, hlast, -, -, hsame⟩ := hsplit inRest 99 (hagrees n hstep) hrest
  obtain ⟨hnumber, hpointer, hstring⟩ := hvalues
  exact ⟨hall, hfirst, hrest, hdepth, _, last, hrun, hlast, hnumber, hpointer, hstring, hsame⟩

end NovelScript.Machine
