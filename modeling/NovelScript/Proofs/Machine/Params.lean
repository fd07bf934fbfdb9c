import NovelScript.Proofs.Machine.Upcoming
import NovelScript.Proofs.Operand.Extent

/-!
# Reading the operands of a subroutine command

A subroutine command has its operands copied to variables one by one. For each of them the machine
goes to the operands of the calling statement and comes back, and keeps how far it has come in the
innermost frame of a subroutine command. Which frames lie above this one does not matter, nor where
the targets stand.
-/

namespace NovelScript.Machine

open NovelScript.Action (Reaches)
open NovelScript.Operand (Scope Reader Cursor At)

variable {m n m' : Machine} {α β : Type}

/-! ## One operand -/

/-- Copies one operand of the calling statement to the next target. -/
def copyParam : Run Unit := do
  let pointer ← eatPointer
  let target ← readVarRef
  if pointer.isSome && target.isStr then throw (.mismatch .integerVariable target.kind)
  match (← get).nesting.params? with
  | none => throw .paramsOutsideCall
  | some params =>
    let (found, after) ← atAddress params (readParamIfAny pointer target)
    unless found do warn .missingParams
    modify fun m => { m with nesting := m.nesting.setParams after }

/-- If there is a target, the operand for it is copied, and then the others. -/
theorem copyParams_succ (targets : Nat) (h : m.hasMore = true) :
    copyParams (targets + 1) m = (copyParam >>= fun _ => copyParams targets) m := by
  rw [copyParams, Action.get_bind, h, if_pos rfl, copyParam]
  simp only [bind_assoc]
  refine congrArg (fun k => (eatPointer >>= k) m) (funext fun pointer => ?_)
  refine congrArg (readVarRef >>= ·) (funext fun target => ?_)
  split
  · rfl
  · simp only [bind_assoc]
    refine congrArg (get >>= ·) (funext fun m => ?_)
    cases m.nesting.params? with
    | none => rfl
    | some params =>
      simp only [bind_assoc]
      refine congrArg (atAddress params (readParamIfAny pointer target) >>= ·) (funext fun copied => ?_)
      cases copied.1 with
      | true => rfl
      | false => simp only [Bool.false_eq_true, if_false, bind_assoc]

/-- What copying an operand has done: the target is read, the operand is read at its own place, and
the innermost frame of a subroutine command keeps how far this has come. -/
theorem copyParam_eq_ok (h : copyParam m = .ok () m') :
    ∃ pointer target params found after m₁ m₂ m₃ m₄,
      eatPointer m = .ok pointer m₁ ∧ readVarRef m₁ = .ok target m₂ ∧
      (pointer.isSome && target.isStr) = false ∧ m₂.nesting.params? = some params ∧
      atAddress params (readParamIfAny pointer target) m₂ = .ok (found, after) m₃ ∧
      (if found then pure () else warn .missingParams : Run Unit) m₃ = .ok () m₄ ∧
      m' = { m₄ with nesting := m₄.nesting.setParams after } := by
  obtain ⟨pointer, m₁, hpointer, h⟩ := Action.exists_of_run_eq_ok h
  obtain ⟨target, m₂, htarget, h⟩ := Action.exists_of_run_eq_ok h
  cases hkind : pointer.isSome && target.isStr with
  | true =>
    rw [hkind] at h
    cases h
  | false =>
    rw [hkind, if_neg Bool.false_ne_true] at h
    dsimp only at h
    rw [Action.get_bind] at h
    cases hparams : m₂.nesting.params? with
    | none =>
      rw [hparams] at h
      cases h
    | some params =>
      rw [hparams] at h
      obtain ⟨⟨found, after⟩, m₃, hread, h⟩ := Action.exists_of_run_eq_ok h
      refine ⟨pointer, target, params, found, after, m₁, m₂, m₃, ?_⟩
      cases found with
      | true =>
        cases h
        exact ⟨m₃, hpointer, htarget, hkind, hparams, hread, rfl, rfl⟩
      | false =>
        obtain ⟨_, m₄, hwarn, h⟩ := Action.exists_of_run_eq_ok h
        cases h
        exact ⟨m₄, hpointer, htarget, hkind, hparams, hread, hwarn, rfl⟩

/-- The parts of copying an operand, one after another. -/
theorem copyParam_of_ok {pointer : Option ParamPointer} {target : VariableRef}
    {params after : Nat} {found : Bool} {m₁ m₂ m₃ m₄ : Machine}
    (hpointer : eatPointer m = .ok pointer m₁) (htarget : readVarRef m₁ = .ok target m₂)
    (hkind : (pointer.isSome && target.isStr) = false) (hparams : m₂.nesting.params? = some params)
    (hread : atAddress params (readParamIfAny pointer target) m₂ = .ok (found, after) m₃)
    (hwarn : (if found then pure () else warn .missingParams : Run Unit) m₃ = .ok () m₄) :
    copyParam m = .ok () { m₄ with nesting := m₄.nesting.setParams after } := by
  rw [copyParam, Action.bind_of_ok hpointer, Action.bind_of_ok htarget, hkind,
    if_neg Bool.false_ne_true]
  dsimp only
  rw [Action.get_bind, hparams]
  dsimp only
  rw [Action.bind_of_ok hread]
  cases found with
  | true =>
    cases hwarn
    rfl
  | false => exact Action.bind_of_ok hwarn _

/-- The pointer that is asked for in front of the percent sign at the next address. -/
def pointerAt (s : Script) (pos : Nat) : Option ParamPointer :=
  if s.isAt (pos + 1) Byte.percent then
    if s.holdsAt pos (Byte.lower · == 0x69) then some .int
    else if s.holdsAt pos (Byte.lower · == 0x73) then some .str
    else none
  else none

/-- Passing over the letter in front of a target never fails: it moves on by that letter, if it is
there. -/
theorem eatPointer_eq (m : Machine) :
    eatPointer m = .ok (pointerAt m.script (m.script.skipBlanks m.cursor))
      (if (pointerAt m.script (m.script.skipBlanks m.cursor)).isSome then
        { m with pc := m.script.skipBlanks m.cursor + 1 } else m) := by
  rw [eatPointer, Action.get_bind, pointerAt]
  generalize m.script.skipBlanks m.cursor = pos
  cases m.script.isAt (pos + 1) Byte.percent with
  | false => rfl
  | true =>
    cases m.script.holdsAt pos (Byte.lower · == 0x69) with
    | true => rfl
    | false => cases m.script.holdsAt pos (Byte.lower · == 0x73) <;> rfl

/-! ## The same operand in another machine -/

/-- Two machines read operands alike: they have the same script, variables and constants, have given
as many warnings, and have the same operand of the calling statement in front of them. -/
structure Agrees (m n : Machine) : Prop where
  /-- The script is the same. -/
  script : n.script = m.script
  /-- The variables are the same. -/
  store : n.store = m.store
  /-- The constants are the same. -/
  aliases : n.aliases = m.aliases
  /-- Warnings are faults in both or in none. -/
  strict : n.settings.strict = m.settings.strict
  /-- There were as many warnings. -/
  warningCount : n.warningCount = m.warningCount
  /-- The next operand of the calling statement is the same. -/
  params? : n.nesting.params? = m.nesting.params?

instance (m n : Machine) : Decidable (Agrees m n) :=
  decidable_of_iff (n.script = m.script ∧ n.store = m.store ∧ n.aliases = m.aliases ∧
      n.settings.strict = m.settings.strict ∧ n.warningCount = m.warningCount ∧
      n.nesting.params? = m.nesting.params?)
    ⟨fun ⟨script, store, aliases, strict, warningCount, params⟩ =>
      ⟨script, store, aliases, strict, warningCount, params⟩,
    fun h => ⟨h.script, h.store, h.aliases, h.strict, h.warningCount, h.params?⟩⟩

namespace Agrees

/-- A machine agrees with itself. -/
theorem refl (m : Machine) : Agrees m m := ⟨rfl, rfl, rfl, rfl, rfl, rfl⟩

/-- Machines agree with each other. -/
theorem symm (h : Agrees m n) : Agrees n m :=
  ⟨h.script.symm, h.store.symm, h.aliases.symm, h.strict.symm, h.warningCount.symm, h.params?.symm⟩

/-- Machines that agree with a third one agree. -/
theorem trans {o : Machine} (h : Agrees m n) (h' : Agrees n o) : Agrees m o where
  script := h'.script.trans h.script
  store := h'.store.trans h.store
  aliases := h'.aliases.trans h.aliases
  strict := h'.strict.trans h.strict
  warningCount := h'.warningCount.trans h.warningCount
  params? := h'.params?.trans h.params?

/-- The address does not matter. -/
theorem move (h : Agrees m n) (pc : Nat) : Agrees m { n with pc } :=
  ⟨h.script, h.store, h.aliases, h.strict, h.warningCount, h.params?⟩

/-- Operands are read in the same way by machines that agree. -/
theorem scope (h : Agrees m n) : n.scope = m.scope := by
  rw [Machine.scope, Machine.scope, h.script, h.store, h.aliases]

private theorem cursor (h : Agrees m n) (hpc : n.pc = m.pc) : n.cursor = m.cursor := by
  rw [Machine.cursor, Machine.cursor, h.script, hpc]

private theorem hasMore (h : Agrees m n) (hpc : n.pc = m.pc) : n.hasMore = m.hasMore := by
  rw [Machine.hasMore, Machine.hasMore, h.script, h.cursor hpc]

end Agrees

/-- Operands were read and values stored: nothing but the address, the variables and the warnings is
different. -/
def ReadsOn (m m' : Machine) : Prop :=
  ∃ pc store warningCount journal, m' = { m with pc, store, warningCount, journal }

namespace ReadsOn

/-- Nothing has been read yet. -/
theorem refl (m : Machine) : ReadsOn m m := ⟨_, _, _, _, rfl⟩

/-- One may read on after reading on. -/
theorem trans {m₁ m₂ : Machine} (h : ReadsOn m m₁) (h' : ReadsOn m₁ m₂) : ReadsOn m m₂ := by
  obtain ⟨pc, store, warningCount, journal, rfl⟩ := h
  obtain ⟨pc', store', warningCount', journal', rfl⟩ := h'
  exact ⟨_, _, _, _, rfl⟩

private theorem move (h : ReadsOn m m') (pc : Nat) : ReadsOn m { m' with pc } :=
  h.trans ⟨_, _, _, _, rfl⟩

/-- The script stays the same. -/
theorem script (h : ReadsOn m m') : m'.script = m.script := by
  obtain ⟨pc, store, warningCount, journal, rfl⟩ := h
  rfl

/-- The open calls and loops stay the same. -/
theorem nesting (h : ReadsOn m m') : m'.nesting = m.nesting := by
  obtain ⟨pc, store, warningCount, journal, rfl⟩ := h
  rfl

/-- Also if something else is open. -/
theorem nest (h : ReadsOn m m') (nesting : Nesting) :
    ReadsOn { m with nesting } { m' with nesting } := by
  obtain ⟨pc, store, warningCount, journal, rfl⟩ := h
  exact ⟨_, _, _, _, rfl⟩

/-- A machine that has arrived at a statement and reads on has arrived wherever it comes to. -/
theorem arrivedAt {addr : Nat} (h : ReadsOn m m') (hm : m.ArrivedAt addr) : m'.ArrivedAt m'.pc := by
  obtain ⟨pc, store, warningCount, journal, rfl⟩ := h
  exact ⟨rfl, hm.pending, hm.running, hm.statement⟩

end ReadsOn

/-- If the action succeeds then it does so at the same address of every machine that reads operands
alike, and comes to the same. -/
def Portable (action : Run α) : Prop :=
  ∀ ⦃m n a m'⦄, Agrees m n → n.pc = m.pc → action m = .ok a m' → ReadsOn m m' ∧
    ∃ n', action n = .ok a n' ∧ Agrees m' n' ∧ n'.pc = m'.pc ∧ ReadsOn n n'

namespace Portable

/-- Giving a result is portable. -/
protected theorem pure (a : α) : Portable (pure a : Run α) := by
  rintro m n _ m' h hpc ⟨⟩
  exact ⟨.refl m, n, rfl, h, hpc, .refl n⟩

/-- So is a failure. -/
protected theorem throw (fault : Fault) : Portable (throw fault : Run α) := by
  rintro m n a m' h hpc ⟨⟩

/-- Portable actions may follow each other. -/
protected theorem bind {x : Run α} {f : α → Run β} (hx : Portable x) (hf : ∀ a, Portable (f a)) :
    Portable (x >>= f) := by
  intro m n b m' h hpc hrun
  obtain ⟨a, m₁, hrun₁, hrun⟩ := Action.exists_of_run_eq_ok hrun
  obtain ⟨hreads₁, n₁, hrun₁', h₁, hpc₁, hreads₁'⟩ := hx h hpc hrun₁
  obtain ⟨hreads, n', hrun', h', hpc', hreads'⟩ := hf a h₁ hpc₁ hrun
  exact ⟨hreads₁.trans hreads, n', (Action.bind_of_ok hrun₁' f).trans hrun', h', hpc',
    hreads₁'.trans hreads'⟩

/-- Each of two ways is portable if both are. -/
protected theorem ite {c : Prop} [Decidable c] {x y : Run α} (hx : Portable x) (hy : Portable y) :
    Portable (if c then x else y) := by
  split
  · exact hx
  · exact hy

end Portable

private theorem portable_operand (read : Scope → Reader α) : Portable (operand read) := by
  intro m n a m' h hpc hrun
  obtain ⟨after, journal, hread, hquiet, rfl⟩ := operand_eq_ok hrun
  rw [← h.scope, ← h.cursor hpc] at hread
  obtain ⟨journal', hrun'⟩ := operand_of_quiet hread fun hstrict => hquiet (h.strict ▸ hstrict)
  exact ⟨⟨_, _, _, _, rfl⟩, _, hrun', ⟨h.script, h.store, h.aliases, h.strict,
    congrArg (· + after.warnings.length) h.warningCount, h.params?⟩, by rw [h.script], _, _, _, _, rfl⟩

private theorem portable_updateStore (f : Store → Except Fault Store) :
    Portable (updateStore f) := by
  intro m n a m' h hpc hrun
  obtain ⟨store, hstore, rfl⟩ := updateStore_eq_ok hrun
  rw [← h.store] at hstore
  have hrun' : updateStore f n = .ok () { n with store } := by
    rw [updateStore, Action.get_bind, Action.ofExcept_bind_of_ok hstore]
    rfl
  exact ⟨⟨_, _, _, _, rfl⟩, _, hrun', ⟨h.script, rfl, h.aliases, h.strict, h.warningCount, h.params?⟩,
    hpc, _, _, _, _, rfl⟩

private theorem portable_readParam (pointer : Option ParamPointer) (target : VariableRef) :
    Portable (readParam pointer target) := by
  cases pointer with
  | none =>
    refine .ite ?_ ?_
    · exact .bind (portable_operand _) fun value => portable_updateStore _
    · exact .bind (portable_operand _) fun value => portable_updateStore _
  | some pointer =>
    cases pointer with
    | int =>
      refine .bind (portable_operand _) fun found => ?_
      cases found with
      | int n => exact portable_updateStore _
      | str n | array no indices => exact .throw _
    | str =>
      refine .bind (portable_operand _) fun found => ?_
      cases found with
      | str n => exact portable_updateStore _
      | int n | array no indices => exact .throw _

/-- Reading an operand of the calling statement is portable. -/
theorem portable_readParamIfAny (pointer : Option ParamPointer) (target : VariableRef) :
    Portable (readParamIfAny pointer target) := by
  intro m n found m' h hpc hrun
  rw [readParamIfAny, Action.get_bind] at hrun ⊢
  rw [h.hasMore hpc]
  exact Portable.ite (.bind (portable_readParam _ _) fun _ => .pure _) (.pure _) h hpc hrun

/-- What an action at another address has done. -/
theorem exists_of_atAddress {action : Run α} {addr reached : Nat} {a : α}
    (h : atAddress addr action m = .ok (a, reached) m') :
    ∃ after, action { m with pc := addr } = .ok a after ∧ reached = after.pc ∧
      m' = { after with pc := m.pc } := by
  cases hrun : action { m with pc := addr } with
  | ok b after =>
    rw [atAddress_of_ok hrun] at h
    cases h
    exact ⟨after, rfl, rfl, rfl⟩
  | error fault after =>
    rw [atAddress_of_error hrun] at h
    cases h

/-- An action at another address may be started anywhere. -/
theorem Portable.atAddress {action : Run α} (haction : Portable action) (h : Agrees m n)
    {addr reached : Nat} {a : α} (hrun : atAddress addr action m = .ok (a, reached) m') :
    ReadsOn m m' ∧ m'.pc = m.pc ∧
      ∃ n', Machine.atAddress addr action n = .ok (a, reached) n' ∧ Agrees m' n' ∧ n'.pc = n.pc ∧
        ReadsOn n n' := by
  obtain ⟨after, haction', rfl, rfl⟩ := exists_of_atAddress hrun
  have hstart : Agrees { m with pc := addr } { n with pc := addr } :=
    ⟨h.script, h.store, h.aliases, h.strict, h.warningCount, h.params?⟩
  have hmove : ∀ m : Machine, ReadsOn m { m with pc := addr } := fun _ => ⟨_, _, _, _, rfl⟩
  obtain ⟨hreads, n', hrun', h', hpc, hreads'⟩ := haction hstart rfl haction'
  refine ⟨((hmove m).trans hreads).move _, rfl, { n' with pc := n.pc }, ?_, ?_, rfl,
    ((hmove n).trans hreads').move _⟩
  · rw [atAddress_of_ok hrun', hpc]
  · exact ⟨h'.script, h'.store, h'.aliases, h'.strict, h'.warningCount, h'.params?⟩

/-- A warning that is given anywhere is given in both machines. -/
theorem Agrees.warnUnless {found : Bool} {warning : Warning} (h : Agrees m n)
    (hrun : (if found then pure () else warn warning : Run Unit) m = .ok () m') :
    ReadsOn m m' ∧ m'.pc = m.pc ∧
      ∃ n', (if found then pure () else warn warning : Run Unit) n = .ok () n' ∧ Agrees m' n' ∧
        n'.pc = n.pc ∧ ReadsOn n n' := by
  cases found with
  | true =>
    cases hrun
    exact ⟨.refl m, rfl, n, rfl, h, rfl, .refl n⟩
  | false =>
    obtain ⟨hlenient, journal, rfl⟩ := warn_eq_ok hrun
    obtain ⟨journal', hrun'⟩ := warn_of_not_strict warning (h.strict.trans hlenient)
    exact ⟨⟨_, _, _, _, rfl⟩, rfl, _, hrun', ⟨h.script, h.store, h.aliases, h.strict,
      congrArg (· + 1) h.warningCount, h.params?⟩, rfl, _, _, _, _, rfl⟩

/-! ## Frames -/

/-- What was kept in the innermost frame of a subroutine command is found there. -/
theorem params?_setParams {nesting : Nesting} {params : Nat} (h : nesting.params? = some params)
    (after : Nat) : (nesting.setParams after).params? = some after := by
  obtain ⟨frames, cap⟩ := nesting
  show ((Nesting.setParamsIn after frames).findSome? (Frame.callOf? .subroutine)).bind _ = _
  replace h : (frames.findSome? (Frame.callOf? .subroutine)).bind CallFrame.params = some params := h
  induction frames with
  | nil => cases h
  | cons frame frames ih =>
    rw [List.findSome?_cons] at h
    cases frame with
    | loop frame =>
      rw [Nesting.setParamsIn, List.findSome?_cons]
      exact ih h
    | call frame =>
      rw [Nesting.setParamsIn]
      by_cases hkind : frame.kind = .subroutine
      · rw [if_pos hkind, List.findSome?_cons, Frame.callOf?, if_pos hkind]
        rfl
      · rw [Frame.callOf?, if_neg hkind] at h
        rw [if_neg hkind, List.findSome?_cons, Frame.callOf?, if_neg hkind]
        exact ih h

/-! ## Onward in the calling statement -/

/-- The machine has come onward in the operands that begin at `start`. -/
def InOperands (script : Script) (start : Nat) (m : Machine) : Prop :=
  m.script = script ∧ script.Onward start m.pc

variable {script : Script} {start : Nat}

/-- Over an operand, if reading it passes over nothing but what operands are made of. -/
theorem reaches_operand {read : Scope → Reader α}
    (hread : ∀ {scope : Scope} {P : Nat → Prop}, scope.script.Passable scope.narrow P →
      Reaches (At P) (fun _ => At P) (read scope)) :
    Reaches (InOperands script start) (fun _ => InOperands script start) (operand read) := by
  rintro m value m' ⟨rfl, honward⟩ hrun
  obtain ⟨after, journal, hvalue, -, rfl⟩ := operand_eq_ok hrun
  have hcursor : m.cursor = m.pc := Nat.min_eq_left honward.le_size
  have hpassable : m.scope.script.Passable m.scope.narrow (m.script.Onward start) :=
    m.script.passable_onward start
  have hafter : m.script.Onward start after.pos :=
    hread hpassable (show At _ ⟨m.cursor, []⟩ from hcursor ▸ honward) hvalue
  exact ⟨rfl, hafter.behindOperand⟩

private theorem reaches_updateStore (f : Store → Except Fault Store) :
    Reaches (InOperands script start) (fun _ => InOperands script start) (updateStore f) := by
  intro m _ m' hm hrun
  obtain ⟨store, -, rfl⟩ := updateStore_eq_ok hrun
  exact hm

private theorem reaches_readParam (pointer : Option ParamPointer) (target : VariableRef) :
    Reaches (InOperands script start) (fun _ => InOperands script start)
      (readParam pointer target) := by
  have href : Reaches (InOperands script start) (fun _ => InOperands script start) readVarRef :=
    reaches_operand fun h => h.reaches_varRef
  cases pointer with
  | none =>
    refine .ite (fun _ => ?_) fun _ => ?_
    · exact .bind (reaches_operand fun h => h.reaches_str) fun value => reaches_updateStore _
    · exact .bind (reaches_operand fun h => h.reaches_int) fun value => reaches_updateStore _
  | some pointer =>
    cases pointer with
    | int =>
      refine .bind href fun found => ?_
      cases found with
      | int n => exact reaches_updateStore _
      | str n | array no indices => exact .throw _
    | str =>
      refine .bind href fun found => ?_
      cases found with
      | str n => exact reaches_updateStore _
      | int n | array no indices => exact .throw _

/-- There are no operands behind the end of the script. -/
theorem lt_size_of_hasMore (h : m.hasMore = true) : m.pc < m.script.size := by
  rw [hasMore, Bool.not_eq_true', Script.atStatementEnd] at h
  cases hbyte : m.script.byte? (m.script.skipBlanks m.cursor) with
  | none =>
    rw [hbyte] at h
    cases h
  | some b =>
    have hlt := Script.lt_size_of_byte? hbyte
    have hle := m.script.le_skipBlanks m.cursor
    rw [cursor] at hlt hle
    omega

/-- How far reading an operand of the calling statement comes. -/
theorem onward_of_readParamIfAny {pointer : Option ParamPointer} {target : VariableRef}
    {found : Bool} {params after : Nat}
    (h : atAddress params (readParamIfAny pointer target) m = .ok (found, after) m') :
    params ≤ after ∧ after ≤ m.script.operandsEnd params ∧
      m.script.operandsEnd after = m.script.operandsEnd params := by
  obtain ⟨reached, hrun, rfl, -⟩ := exists_of_atAddress h
  rw [readParamIfAny, Action.get_bind] at hrun
  cases hmore : hasMore { m with pc := params } with
  | false =>
    rw [hmore] at hrun
    cases hrun
    exact ⟨Nat.le_refl _, m.script.le_operandsEnd _, rfl⟩
  | true =>
    rw [hmore, if_pos rfl] at hrun
    obtain ⟨_, read, hread, hrun⟩ := Action.exists_of_run_eq_ok hrun
    cases hrun
    have hle : params ≤ m.script.size := Nat.le_of_lt (lt_size_of_hasMore hmore)
    have honward := (reaches_readParam pointer target
      (show InOperands m.script params { m with pc := params } from ⟨rfl, .refl hle⟩) hread).2
    exact ⟨honward.ge, honward.le_operandsEnd, honward.sameEnd⟩

/-- The next operand of the calling statement moves onward, and stays in this statement. -/
def GoesOnward (m m' : Machine) : Prop :=
  ∀ params, m.nesting.params? = some params →
    ∃ after, m'.nesting.params? = some after ∧ params ≤ after ∧
      after ≤ m.script.operandsEnd params ∧
      m.script.operandsEnd after = m.script.operandsEnd params

private theorem GoesOnward.refl (m : Machine) : GoesOnward m m := fun params hparams =>
  ⟨params, hparams, Nat.le_refl _, m.script.le_operandsEnd _, rfl⟩

private theorem GoesOnward.trans {m₁ m₂ : Machine} (h : GoesOnward m m₁) (h' : GoesOnward m₁ m₂)
    (hscript : m₁.script = m.script) : GoesOnward m m₂ := by
  intro params hparams
  obtain ⟨middle, hmiddle, hle, -, hend⟩ := h params hparams
  obtain ⟨after, hafter, hle', hin, hend'⟩ := h' middle hmiddle
  rw [hscript] at hin hend'
  exact ⟨after, hafter, hle.trans hle', hend ▸ hin, hend'.trans hend⟩

/-- Copying an operand changes no frame but the innermost one of a subroutine command, and moves the
next operand onward. -/
theorem goesOnward_of_copyParam (h : copyParam m = .ok () m') :
    (∃ nesting, ReadsOn { m with nesting } m') ∧ GoesOnward m m' := by
  obtain ⟨pointer, target, params, found, after, m₁, m₂, m₃, m₄, hpointer, htarget, -, hparams, hread,
    hwarn, rfl⟩ := copyParam_eq_ok h
  have hreads₁ : ReadsOn m m₁ := by
    rw [eatPointer_eq] at hpointer
    obtain ⟨-, rfl⟩ := EStateM.Result.ok.inj hpointer
    split
    · exact ⟨_, _, _, _, rfl⟩
    · exact .refl m
  have hreads₂ := hreads₁.trans (portable_operand _ (Agrees.refl m₁) rfl htarget).1
  have hreads₄ := ((portable_readParamIfAny pointer target).atAddress (Agrees.refl m₂) hread).1.trans
    ((Agrees.refl m₃).warnUnless hwarn).1
  refine ⟨⟨_, (hreads₂.trans hreads₄).nest _⟩, fun start hstart => ⟨after, ?_, ?_⟩⟩
  · rw [← hreads₄.nesting] at hparams
    exact params?_setParams hparams after
  · rw [← hreads₂.nesting, hparams] at hstart
    cases hstart
    rw [← hreads₂.script]
    exact onward_of_readParamIfAny hread

/-- So does copying all of them. -/
theorem goesOnward_of_copyParams {targets : Nat} (h : copyParams targets m = .ok () m') :
    (∃ nesting, ReadsOn { m with nesting } m') ∧ GoesOnward m m' := by
  induction targets generalizing m with
  | zero =>
    cases h
    exact ⟨⟨_, .refl _⟩, .refl _⟩
  | succ targets ih =>
    cases hmore : m.hasMore with
    | false =>
      rw [copyParams, Action.get_bind, hmore] at h
      cases h
      exact ⟨⟨_, .refl _⟩, .refl _⟩
    | true =>
      rw [copyParams_succ targets hmore] at h
      obtain ⟨_, m₁, hcopy, h⟩ := Action.exists_of_run_eq_ok h
      obtain ⟨⟨nesting₁, hreads₁⟩, honward₁⟩ := goesOnward_of_copyParam hcopy
      obtain ⟨⟨nesting, hreads⟩, honward⟩ := ih h
      exact ⟨⟨nesting, (hreads₁.nest nesting).trans hreads⟩, honward₁.trans honward hreads₁.script⟩

end NovelScript.Machine
