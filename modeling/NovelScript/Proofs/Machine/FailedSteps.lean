import NovelScript.Proofs.Machine.Handlers
import NovelScript.Proofs.Machine.Params
import NovelScript.Proofs.Operand.Faults

/-!
# What is open after a step has failed

A step that fails because calls and loops do not match, or because there would be too many of them,
leaves open exactly what was open. A step that fails because a label does not exist is another
matter: a call is opened before its label is looked for, a return and the leaving of a loop close a
frame before, and a new game closes everything before it looks for its first label. Each of these
commands fails with the frames that its success would have left; all others leave the frames as they
were.
-/

namespace NovelScript

open NovelScript.Action (Keeps Fails Reaches Harmless)

variable {α β : Type} {script : Script} {nesting : Nesting} {m : Machine} {left : List Frame → Prop}

/-- The innermost loop is closed, if the innermost frame is a loop. -/
def Frame.withoutLoop : List Frame → List Frame
  | .loop _ :: frames => frames
  | frames => frames

private theorem Frame.withoutLoop_eq_self (h : nesting.topIsLoop = false) :
    withoutLoop nesting.frames = nesting.frames := by
  unfold Nesting.topIsLoop at h
  split at h
  · cases h
  · next frames hnone =>
    match hframes : nesting.frames with
    | [] | .call frame :: frames => rfl
    | .loop frame :: frames => exact absurd hframes (hnone _ _)

/-- What is open after a statement that does not find a label: `before` was open before it, and
`after` is open now. The statement is told by what its word stands for, if it has one. -/
def Resolution.Leaves (before after : List Frame) : Option Resolution → Prop
  | some (.subroutine _) | some (.builtin .gosub) | some (.builtin .rgosub) =>
    ∃ call, after = .call call :: before
  | some (.builtin .returnCall) => ∃ call, before = .call call :: after
  | some (.builtin .breakLoop) => after = Frame.withoutLoop before
  | some (.builtin .reset) => after = []
  | _ => after = before

namespace Machine

/-- The machine runs the script, and these calls and loops are open. -/
def Stands (script : Script) (nesting : Nesting) (m : Machine) : Prop :=
  m.core.Inside script ∧ m.nesting = nesting

/-- A fault of calls and loops that do not match leaves the frames; a fault of a label that does not
exist leaves what `left` tells. -/
def Spares (frames : List Frame) (left : List Frame → Prop) (fault : Fault) (m : Machine) : Prop :=
  (fault.kind = .controlFlow → m.nesting.frames = frames) ∧
    (fault.kind = .undefinedLabel → left m.nesting.frames)

private theorem spares_of_not_ofControl {frames : List Frame} {fault : Fault}
    (h : ¬ fault.OfControl) : Spares frames left fault m :=
  ⟨fun hkind => absurd (.inl hkind) h, fun hkind => absurd (.inr hkind) h⟩

private theorem spares_of_controlFlow {frames : List Frame} {fault : Fault}
    (h : fault.kind = .controlFlow)
    (hframes : m.nesting.frames = frames) : Spares frames left fault m :=
  ⟨fun _ => hframes, fun hkind => nomatch h.symm.trans hkind⟩

/-- An action without faults of control spares whatever is open. -/
theorem fails_of_harmless {I : Machine → Prop} {frames : List Frame} {x : Run α} (hx : Harmless x) :
    Fails I (Spares frames left) x :=
  hx.imp (fun _ _ => trivial) fun _ _ => spares_of_not_ofControl

/-! ## Actions that leave alone what is open -/

private theorem stands_of_still {x : Run α} (hx : ∀ way first, Keeps (Evolves way script first) x) :
    Keeps (Stands script nesting) x := by
  rintro m ⟨hm, rfl⟩
  have hafter := hx .still m (Evolves.refl hm)
  exact ⟨hafter.inside, hafter.nesting_eq (.inl rfl)⟩

private theorem fails_of_still {x : Run α} (hx : ∀ way first, Keeps (Evolves way script first) x)
    (hleft : left nesting.frames) : Fails (Stands script nesting) (Spares nesting.frames left) x := by
  refine .ofKeeps (stands_of_still hx) fun fault m hm => ?_
  obtain ⟨-, rfl⟩ := hm
  exact ⟨fun _ => rfl, fun _ => hleft⟩

/-- Variables do not matter for what is open. -/
theorem stands_updateStore (f : Store → Except Fault Store) :
    Keeps (Stands script nesting) (updateStore f) := by
  refine .get fun m _ => .ofExcept_bind fun store _ => .modify fun _ hm => ?_
  obtain ⟨hinside, hnesting⟩ := hm
  exact ⟨⟨hinside.script, hinside.labels, hinside.pc, hinside.statementStart, hinside.lastSection,
    hinside.nesting⟩, hnesting⟩

section Still

variable {x : Run α} {f : α → Run β} (hx : ∀ way first, Keeps (Evolves way script first) x)
include hx

/-- Something that leaves alone what is open, and then something that spares it. -/
theorem fails_after_still (hleft : left nesting.frames)
    (hf : ∀ a, Fails (Stands script nesting) (Spares nesting.frames left) (f a)) :
    Fails (Stands script nesting) (Spares nesting.frames left) (x >>= f) :=
  .keep (fails_of_still hx hleft) (stands_of_still hx) hf

private theorem fails_after_returns {P : α → Prop} (hreturns : Action.Returns x P)
    (hleft : left nesting.frames)
    (hf : ∀ a, P a → Fails (Stands script nesting) (Spares nesting.frames left) (f a)) :
    Fails (Stands script nesting) (Spares nesting.frames left) (x >>= f) :=
  .keepReturns (fails_of_still hx hleft) (stands_of_still hx) hreturns hf

/-- The same where something else than what is open may be left. -/
theorem fails_after_harmless (hharmless : Harmless x)
    (hf : ∀ a, Fails (Stands script nesting) (Spares nesting.frames left) (f a)) :
    Fails (Stands script nesting) (Spares nesting.frames left) (x >>= f) :=
  .keep (fails_of_harmless hharmless) (stands_of_still hx) hf

end Still

/-- A result that may be a fault of calls and loops that do not match. -/
theorem fails_ofExcept_bind {op : Except Fault α} {f : α → Run β}
    (hop : ∀ fault, op = .error fault → fault.kind = .controlFlow)
    (hf : ∀ a, op = .ok a → Fails (Stands script nesting) (Spares nesting.frames left) (f a)) :
    Fails (Stands script nesting) (Spares nesting.frames left) (Action.ofExcept op >>= f) :=
  .ofExcept_bind (fun fault hfault _ hm => spares_of_controlFlow (hop fault hfault) (by rw [hm.2])) hf

/-! ## Faults of small actions -/

private theorem kind_of_byName {labels : LabelTable} {name : String} {fault : Fault}
    (h : labels.byName name = .error fault) : fault.kind = .undefinedLabel := by
  unfold LabelTable.byName at h
  split at h
  · cases h
  · cases h
    rfl

private theorem kind_of_push {frame : Frame} {fault : Fault}
    (h : nesting.push frame = .error fault) : fault.kind = .controlFlow := by
  unfold Nesting.push at h
  split at h
  · cases h
  · split at h
    · cases h
      rfl
    · cases h

private theorem kind_of_popCall {fault : Fault} (h : nesting.popCall = .error fault) :
    fault.kind = .controlFlow := by
  unfold Nesting.popCall at h
  split at h <;> cases h
  all_goals rfl

private theorem kind_of_topLoop {fault : Fault} (h : nesting.topLoop = .error fault) :
    fault.kind = .controlFlow := by
  unfold Nesting.topLoop at h
  split at h <;> cases h
  all_goals rfl

private theorem kind_of_popLoop {fault : Fault} (h : nesting.popLoop = .error fault) :
    fault.kind = .controlFlow := by
  unfold Nesting.popLoop at h
  cases htop : nesting.topLoop with
  | ok loop =>
    rw [htop] at h
    cases h
  | error e =>
    rw [htop] at h
    cases h
    exact kind_of_topLoop htop

private theorem kind_of_finishLoop {fault : Fault} (h : nesting.finishLoop = .error fault) :
    fault.kind = .controlFlow := by
  unfold Nesting.finishLoop at h
  cases htop : nesting.topLoop with
  | ok loop =>
    rw [htop] at h
    cases h
  | error e =>
    rw [htop] at h
    cases h
    exact kind_of_topLoop htop

private theorem kind_of_loopEnd {addr : Nat} {fault : Fault}
    (h : script.loopEnd addr = .error fault) : fault.kind = .controlFlow := by
  unfold Script.loopEnd at h
  split at h <;> cases h
  rfl

/-- A jump to a label that does not exist leaves open whatever is open. -/
theorem fails_jumpTo {frames : List Frame} (left : List Frame → Prop) (name : String) :
    Fails (fun m => left m.nesting.frames) (Spares frames left) (jumpTo name) := by
  refine .get fun m hm => .ofExcept_bind (fun fault hfault s hs => ?_) fun label _ => .modify _
  refine ⟨fun hkind => ?_, fun _ => hs⟩
  cases (kind_of_byName hfault).symm.trans hkind

private theorem fails_jump {frames : List Frame} (left : List Frame → Prop) (name : String)
    (a : α) : Fails (fun m => left m.nesting.frames) (Spares frames left) (do
      jumpTo name
      return a) :=
  .bind (J := fun _ _ => True) (fails_jumpTo left name) (fun _ _ _ _ _ => trivial) fun _ => .pure _

/-- A label that is there is found. -/
theorem fails_jumpTo_of_label {name : String} :
    Fails (fun m => ∃ label, m.labels.byName name = .ok label) (fun fault _ => ¬ fault.OfControl)
      (jumpTo name) := by
  refine .look fun m hm => .ofExcept_bind (fun fault hfault => ?_) fun _ _ => .modify _
  obtain ⟨label, hlabel⟩ := hm
  cases hlabel.symm.trans hfault

private theorem harmless_warn (warning : Warning) : Harmless (warn warning) :=
  .get fun _ => .ite (.throw (by simp [Fault.kind])) (.set _)

private theorem harmless_warnAll (warnings : List Warning) : Harmless (warnAll warnings) := by
  induction warnings with
  | nil => exact .pure _
  | cons warning warnings ih => exact .bind (harmless_warn _) fun _ => ih

private theorem harmless_operand {read : Operand.Scope → Operand.Reader α}
    (hread : ∀ scope, Harmless (read scope)) : Harmless (operand read) := by
  refine .get fun m => ?_
  split
  · exact .bind (harmless_warnAll _) fun _ => .bind (.modify _) fun _ => .pure _
  · next fault after hrun =>
    exact .bind (harmless_warnAll _) fun _ => .throw (hread m.scope trivial hrun)

private theorem harmless_readLabel : Harmless readLabel :=
  harmless_operand Operand.Scope.harmless_label

private theorem harmless_readVarRef : Harmless readVarRef :=
  harmless_operand Operand.Scope.harmless_varRef

private theorem harmless_writeInt (target : VariableRef) (value : Int32) :
    Harmless (writeInt target value) :=
  .get fun _ => .ofExcept_bind (fun _ => Store.not_ofControl_of_writeInt) fun _ => .modify _

private theorem harmless_writeStr (target : VariableRef) (value : Bytes) :
    Harmless (writeStr target value) :=
  .get fun _ => .ofExcept_bind (fun _ => Store.not_ofControl_of_writeStr) fun _ => .modify _

private theorem harmless_endStatement : Harmless endStatement := by
  have hwarn : ∀ m : Machine, Harmless (do
      if !m.script.atStatementEnd (m.script.skipBlanks m.cursor) then warn .extraOperands) :=
    fun _ => .ite (harmless_warn _) (.pure _)
  refine .get fun m => .ite (.bind (.modify _) fun _ => hwarn m) ?_
  exact .bind (.modify _) fun _ => hwarn m

private theorem harmless_writeSaved (name : String) (bytes : Bytes) :
    Harmless (writeSaved name bytes) := by
  refine .get fun m => .bind (.modify _) fun _ => ?_
  cases m.saves.refusals name 0 with
  | none => exact .pure _
  | some failure => exact .throw (by simp [Fault.kind])

private theorem harmless_savePersistent : Harmless savePersistent := by
  refine .get fun m => .doIf (harmless_writeSaved _ _) (.doIf (harmless_writeSaved _ _) ?_)
  refine .doIf (harmless_writeSaved _ _) (.ite ?_ (.pure _))
  exact harmless_writeSaved _ _

private theorem harmless_finishProgram : Harmless finishProgram :=
  .get fun _ => .ite (.pure _) (.bind (.modify _) fun _ => harmless_savePersistent)

/-- What a command asks for does not fail with a fault of control, unless it is a new game. -/
theorem harmless_complete {outcome : Outcome} (h : outcome ≠ .restart) :
    Harmless (complete outcome) := by
  cases outcome with
  | advance => exact .bind harmless_endStatement fun _ => .pure _
  | skipLine => exact .bind (.modify _) fun _ => .pure _
  | stay => exact .pure _
  | restart => exact absurd rfl h
  | stop => exact .bind harmless_finishProgram fun _ => .pure _

/-! ## Opening calls and loops -/

section Pushing

variable {I : Machine → Prop} (hI : ∀ m, I m → m.nesting = nesting)
include hI

/-- A frame that is refused leaves open what was open. -/
theorem fails_pushFrame (frame : Frame) :
    Fails I (Spares nesting.frames left) (pushFrame frame) := by
  refine .get fun m hm => .ofExcept_bind (fun fault hfault s hs => ?_) fun next _ => .modify _
  exact spares_of_controlFlow (kind_of_push hfault) (by rw [hI s hs])

private theorem reaches_pushFrame (frame : Frame) :
    Reaches I (fun _ m => m.nesting.frames = frame :: nesting.frames) (pushFrame frame) := by
  refine .get fun m hm => .ofExcept_bind fun next hpush => .modify fun _ _ => ?_
  rw [push_eq_ok hpush, hI m hm]

/-- A handler is not called if there would be too many frames, and otherwise its label is found. -/
theorem fails_handler (frame : CallFrame) {name : String}
    (hlabel : ∀ m, I m → ∃ label, m.labels.byName name = .ok label) (a : α) :
    Fails I (Spares nesting.frames (· = nesting.frames)) (do
      pushFrame (.call frame)
      jumpTo name
      return a) := by
  refine .bind (J := fun _ m => ∃ label, m.labels.byName name = .ok label) (fails_pushFrame hI _) ?_
    fun _ => ?_
  · exact .get fun m _ => .ofExcept_bind fun _ _ => .modify fun s hs => hlabel s hs
  · refine .bind (J := fun _ _ => True) ?_ (fun _ _ _ _ _ => trivial) fun _ => .pure _
    exact fails_jumpTo_of_label.imp (fun _ h => h) fun _ _ => spares_of_not_ofControl

end Pushing

/-- A call that is opened stays open if its label does not exist. -/
theorem fails_call (frame : CallFrame) (label : String) (a : α) :
    Fails (Stands script nesting)
      (Spares nesting.frames fun after => ∃ call, after = .call call :: nesting.frames) (do
        pushFrame (.call frame)
        jumpTo label
        return a) := by
  refine .bind (fails_pushFrame (fun _ h => h.2) _) (reaches_pushFrame (fun _ h => h.2) _) fun _ => ?_
  exact (fails_jump _ label a).imp (fun m hm => ⟨frame, hm⟩) fun _ _ h => h

private theorem fails_callLabel (label : String) :
    Fails (Stands script nesting)
      (Spares nesting.frames fun after => ∃ call, after = .call call :: nesting.frames)
      (callLabel label) :=
  .get fun _ _ => fails_call _ label _

private theorem fails_gosub :
    Fails (Stands script nesting)
      (Spares nesting.frames fun after => ∃ call, after = .call call :: nesting.frames) gosub :=
  fails_after_harmless (fun _ _ => keeps_readLabel) harmless_readLabel fun label =>
    fails_callLabel label

private theorem fails_handlerGosub :
    Fails (Stands script nesting)
      (Spares nesting.frames fun after => ∃ call, after = .call call :: nesting.frames)
      handlerGosub := by
  refine fails_after_harmless (fun _ _ => keeps_readLabel) harmless_readLabel fun label => ?_
  refine .get fun m _ => ?_
  cases m.nesting.bookmark? with
  | some bookmark => exact fails_call _ label _
  | none =>
    exact fails_after_harmless (fun _ _ => keeps_warn _) (harmless_warn _) fun _ =>
      fails_callLabel label

/-- A loop is opened last of all. -/
theorem fails_openLoop :
    Fails (Stands script nesting) (Spares nesting.frames (· = nesting.frames)) openLoop := by
  refine fails_after_returns (fun _ _ => keeps_readIntTarget) returns_readIntTarget rfl
    fun counter hcounter => ?_
  refine fails_after_still (fun _ _ => keeps_expectToken _) rfl fun _ => ?_
  refine fails_after_still (fun _ _ => keeps_readInt) rfl fun start => ?_
  refine fails_after_still (fun _ _ => keeps_eatKeyword _) rfl fun found => ?_
  refine .ite (fun _ => ?_) fun _ => .fail fun _ _ => spares_of_not_ofControl (by decide)
  refine fails_after_still (fun _ _ => keeps_readInt) rfl fun bound => ?_
  refine fails_after_still (fun _ _ => keeps_eatKeyword _) rfl fun stepped => ?_
  refine .join ⟨fails_of_still (fun _ _ => keeps_readInt) rfl, stands_of_still fun _ _ => keeps_readInt⟩
    ⟨.pure _, .pure _⟩ fun step => ?_
  refine .ite (fun _ => .fail fun m hm => spares_of_controlFlow rfl (by rw [hm.2])) fun _ => ?_
  refine fails_after_still (fun _ _ => keeps_writeInt hcounter.2 _) rfl fun _ => ?_
  refine fails_after_still (fun _ _ => keeps_valueOf _) rfl fun value => .get fun m _ => ?_
  refine .ite (fun _ => ?_) fun _ => ?_
  · refine fails_ofExcept_bind (fun _ => kind_of_loopEnd) fun found _ => ?_
    refine .bind (fails_pushFrame (fun _ h => h.2) _) (reaches_pushFrame (fun _ h => h.2) _) fun _ => ?_
    exact fails_of_harmless (.bind (.modify _) fun _ => .pure _)
  · exact .bind (fails_pushFrame (fun _ h => h.2) _) (reaches_pushFrame (fun _ h => h.2) _) fun _ => .pure _

/-! ## Closing calls and loops -/

private theorem harmless_leaveCall (frame : CallFrame) : Harmless (leaveCall frame) := by
  unfold leaveCall
  split
  · exact .modify _
  · exact .modify _
  · exact .bind (.modify _) fun _ => .modify _
  · exact .modify _

/-- A call is closed before the label is looked for at which execution goes on. -/
theorem fails_returnFromCall :
    Fails (Stands script nesting)
      (Spares nesting.frames fun after => ∃ call, nesting.frames = .call call :: after)
      returnFromCall := by
  refine .get fun m _ => .join ⟨fails_of_harmless ?_, ?_⟩ ⟨.pure _, .pure _⟩ fun target =>
    .get fun m hm => ?_
  · rw [map_eq_pure_bind]
    exact .bind harmless_readLabel fun _ => .pure _
  · exact .map _ (stands_of_still fun _ _ => keeps_readLabel)
  rw [hm.2]
  refine fails_ofExcept_bind (fun _ => kind_of_popCall) fun popped hpopped => ?_
  obtain ⟨frame, rest⟩ := popped
  have hframes : nesting.frames = .call frame :: rest.frames := (popCall_eq_ok hpopped).1
  let Closed (after : List Frame) : Prop := ∃ call, nesting.frames = .call call :: after
  refine .change (J := fun m => Closed m.nesting.frames) (fun m _ => ⟨frame, hframes⟩) ?_
  cases target with
  | some label => exact fails_jump Closed label _
  | none => exact fails_of_harmless (.bind (harmless_leaveCall _) fun _ => .pure _)

/-- Closing the innermost loop leaves everything open if there is none. -/
theorem fails_closeLoop : Fails (Stands script nesting) (Spares nesting.frames left) closeLoop := by
  refine .get fun m hm => ?_
  rw [hm.2]
  exact fails_ofExcept_bind (fun _ => kind_of_popLoop) fun _ _ => .modify _

private theorem reaches_closeLoop :
    Reaches (Stands script nesting)
      (fun _ m => m.nesting.frames = Frame.withoutLoop nesting.frames) closeLoop := by
  refine .get fun m hm => ?_
  rw [hm.2]
  refine .ofExcept_bind fun popped hpopped => .modify fun _ _ => ?_
  obtain ⟨frames, cap⟩ := nesting
  match frames with
  | [] => cases hpopped
  | .call frame :: frames => cases hpopped
  | .loop frame :: frames =>
    cases hpopped
    rfl

private theorem fails_loopAgain :
    Fails (Stands script nesting) (Spares nesting.frames (· = nesting.frames)) loopAgain := by
  have hclose : Fails (Stands script nesting) (Spares nesting.frames (· = nesting.frames)) (do
      closeLoop
      return Outcome.advance) :=
    .bind fails_closeLoop reaches_closeLoop fun _ => .pure _
  refine .get fun m hm => ?_
  rw [hm.2]
  refine fails_ofExcept_bind (fun _ => kind_of_topLoop) fun frame _ => .ite (fun _ => hclose) fun _ => ?_
  refine fails_after_still (fun _ _ => keeps_valueOf _) rfl fun value => ?_
  refine .keep (fails_of_harmless (harmless_writeInt _ _)) (stands_updateStore _) fun _ => ?_
  refine fails_after_still (fun _ _ => keeps_valueOf _) rfl fun reached => .ite (fun _ => hclose) ?_
  exact fun _ => fails_of_harmless (.bind (.modify _) fun _ => .pure _)

/-- A loop is closed before the label is looked for at which execution goes on. -/
theorem fails_breakLoop :
    Fails (Stands script nesting)
      (Spares nesting.frames (· = Frame.withoutLoop nesting.frames)) breakLoop := by
  refine .get fun m _ => .ite (fun _ => ?_) fun _ => ?_
  · refine fails_after_harmless (fun _ _ => keeps_readLabel) harmless_readLabel fun label => ?_
    refine .get fun m hm => ?_
    rw [hm.2]
    have hjump : Fails (fun m => m.nesting.frames = Frame.withoutLoop nesting.frames)
        (Spares nesting.frames (· = Frame.withoutLoop nesting.frames)) (do
          jumpTo label
          return Outcome.stay) := fails_jump (· = Frame.withoutLoop nesting.frames) label _
    refine .ite (fun _ => .bind fails_closeLoop reaches_closeLoop fun _ => hjump) fun hnone => ?_
    refine fails_after_harmless (fun _ _ => keeps_warn _) (harmless_warn _) fun _ => ?_
    refine hjump.imp (fun m hm => ?_) fun _ _ h => h
    rw [hm.2]
    exact (Frame.withoutLoop_eq_self (by simpa using hnone)).symm
  · refine .get fun m hm => fails_ofExcept_bind (fun _ => kind_of_loopEnd) fun found _ => ?_
    rw [hm.2]
    refine .ite (fun _ => ?_) fun _ => fails_of_harmless ?_
    · refine fails_ofExcept_bind (fun _ => kind_of_finishLoop) fun finished _ => fails_of_harmless ?_
      exact .bind (.modify _) fun _ => .bind (.modify _) fun _ => .pure _
    · exact .bind (harmless_warn _) fun _ => .bind (.modify _) fun _ => .pure _

/-! ## Operands of subroutine commands -/

private theorem harmless_atAddress {addr : Nat} {x : Run α} (hx : Harmless x) :
    Harmless (atAddress addr x) := by
  intro m fault m' _ h
  cases hrun : x { m with pc := addr } with
  | ok a after =>
    rw [atAddress_of_ok hrun] at h
    cases h
  | error e after =>
    rw [atAddress_of_error hrun] at h
    cases h
    exact hx trivial hrun

private theorem harmless_eatPointer : Harmless eatPointer := by
  have hpass : ∀ (addr : Nat) (pointer : ParamPointer),
      Harmless (moveTo addr >>= fun _ => pure (some pointer)) :=
    fun _ _ => .bind (.modify _) fun _ => .pure _
  refine .get fun m => .ite ?_ (.pure _)
  exact .ite (hpass _ _) (.ite (hpass _ _) (.pure _))

private theorem harmless_readParam (pointer : Option ParamPointer) (target : VariableRef) :
    Harmless (readParam pointer target) := by
  cases pointer with
  | none =>
    refine .ite ?_ ?_
    · exact .bind (harmless_operand Operand.Scope.harmless_str) fun _ => harmless_writeStr _ _
    · exact .bind (harmless_operand Operand.Scope.harmless_int) fun _ => harmless_writeInt _ _
  | some pointer =>
    cases pointer with
    | int =>
      refine .bind harmless_readVarRef fun found => ?_
      cases found with
      | int n => exact harmless_writeInt _ _
      | str n | array no indices => exact .throw (by simp [Fault.kind])
    | str =>
      refine .bind harmless_readVarRef fun found => ?_
      cases found with
      | str n => exact harmless_writeInt _ _
      | int n | array no indices => exact .throw (by simp [Fault.kind])

private theorem harmless_readParamIfAny (pointer : Option ParamPointer) (target : VariableRef) :
    Harmless (readParamIfAny pointer target) :=
  .get fun _ => .ite (.bind (harmless_readParam _ _) fun _ => .pure _) (.pure _)

/-- Once an operand has been copied, there is a subroutine command to copy others from. -/
theorem fails_copyParams (targets : Nat) :
    Fails (fun m => m.nesting.params? = none → m.nesting = nesting)
      (fun fault m => fault.OfControl → m.nesting = nesting) (copyParams targets) := by
  -- What cannot fail with a fault of control says nothing about what is open.
  have hharmless : ∀ {γ : Type} {I : Machine → Prop} {x : Run γ}, Harmless x →
      Fails I (fun fault m => fault.OfControl → m.nesting = nesting) x :=
    fun hx => hx.imp (fun _ _ => trivial) fun _ _ hnot hcontrol => absurd hcontrol hnot
  induction targets with
  | zero => exact .pure _
  | succ targets ih =>
    refine .get fun m _ => .ite (fun _ => ?_) fun _ => .pure _
    refine .keep (hharmless harmless_eatPointer) (keeps_eatPointer_of fun _ _ h => h) fun pointer => ?_
    have hread := harmless_readVarRef
    refine .keep (hharmless hread) (keeps_operand_of (fun _ _ h => h) (fun _ _ _ h => h) _) fun target => ?_
    refine .ite (fun _ => .fail fun _ _ hcontrol => absurd hcontrol (by simp [Fault.kind])) fun _ => ?_
    refine .look fun m hm => ?_
    cases hparams : m.nesting.params? with
    | none => exact .throw fun s hs _ => hs ▸ hm hparams
    | some params =>
      -- Until the operand is copied, there is a subroutine command.
      let Unread (m : Machine) : Prop := m.nesting.params? = some params
      have hread : Keeps Unread (atAddress params (readParamIfAny pointer target)) :=
        keeps_atAddress_of (fun _ _ h => h)
          (keeps_readParamIfAny_of (fun _ _ h => h) (fun _ _ _ h => h) (fun _ _ h => h) _ _)
      have hreads : Harmless (atAddress params (readParamIfAny pointer target)) :=
        harmless_atAddress (harmless_readParamIfAny pointer target)
      have hwarns : Keeps Unread (warn .missingParams) := keeps_warn_of (fun _ _ _ h => h) _
      refine Fails.imp (I := Unread) ?_ (fun s hs => hs ▸ hparams) fun _ _ h => h
      refine .keep (hharmless hreads) hread fun copied => ?_
      have hnext : Fails Unread (fun fault m => fault.OfControl → m.nesting = nesting) (do
          modify fun m => { m with nesting := m.nesting.setParams copied.2 }
          copyParams targets) := by
        refine .change (fun m hm hnone => ?_) ih
        cases (params?_setParams hm copied.2).symm.trans hnone
      exact .ite (fun _ => hnext) fun _ => .keep (hharmless (harmless_warn _)) hwarns fun _ => hnext

private theorem fails_getParams :
    Fails (Stands script nesting) (Spares nesting.frames (· = nesting.frames)) getParams := by
  refine .get fun m _ => .bind (J := fun _ _ => True) ?_ (fun _ _ _ _ _ => trivial) fun _ => .pure _
  refine (fails_copyParams _).imp (fun m hm _ => hm.2) fun fault m hm => ?_
  exact ⟨fun hkind => by rw [hm (.inl hkind)], fun hkind => by rw [hm (.inr hkind)]⟩

/-! ## Saved games -/

/-- A saved game is loaded as a whole or not at all. -/
theorem fails_loadGame :
    Fails (Stands script nesting) (Spares nesting.frames (· = nesting.frames)) loadGame := by
  refine fails_after_still (fun _ _ => keeps_readInt) rfl fun slot => .get fun m hm => ?_
  have hsame : ∀ (fault : Fault) (m : Machine), Stands script nesting m →
      Spares nesting.frames (· = nesting.frames) fault m :=
    fun _ _ hm => ⟨fun _ => by rw [hm.2], fun _ => by rw [hm.2]⟩
  refine .ofExcept_bind (fun fault _ s hs => hsame fault s hs) fun _ _ => .ite (fun _ => ?_) fun _ => ?_
  · refine .bind (J := fun _ _ => True) (fun s fault s' hs h => ?_) (fun _ _ _ _ _ => trivial)
      fun _ => .pure _
    obtain rfl := atomic_loadSlot slot h
    exact hsame fault _ hs
  · exact fails_after_still (fun _ _ => keeps_warn _) rfl fun _ => .pure _

/-! ## Steps -/

/-- What a command leaves open that does not find a label. -/
theorem fails_execute (command : Command) :
    Fails (Stands script nesting)
      (Spares nesting.frames (Resolution.Leaves nesting.frames · (some (.builtin command))))
      (execute command) := by
  have still : ∀ {x : Run Outcome}, (∀ way first, Keeps (Evolves way script first) x) →
      Fails (Stands script nesting) (Spares nesting.frames (· = nesting.frames)) x :=
    fun hx => fails_of_still hx rfl
  cases command with
  | gosub => exact fails_gosub
  | returnCall => exact fails_returnFromCall
  | rgosub => exact fails_handlerGosub
  | forLoop => exact fails_openLoop
  | next => exact fails_loopAgain
  | breakLoop => exact fails_breakLoop
  | getparam => exact fails_getParams
  | loadgame => exact fails_loadGame
  | mov => exact still fun _ _ => keeps_assign
  | add | sub | mul | div | mod => exact still fun _ _ => keeps_arithmetic _
  | inc | dec => exact still fun _ _ => keeps_increase _
  | cmp => exact still fun _ _ => keeps_compareStrings
  | itoa => exact still fun _ _ => keeps_integerToString
  | atoi => exact still fun _ _ => keeps_stringToInteger
  | len => exact still fun _ _ => keeps_stringLength
  | mid => exact still fun _ _ => keeps_substring
  | rnd => exact still fun _ _ => keeps_randomBelow
  | rnd2 => exact still fun _ _ => keeps_randomBetween
  | intlimit => exact still fun _ _ => keeps_limitVariable
  | dim => exact still fun _ _ => keeps_declareArray
  | numalias => exact still fun _ _ => keeps_nameNumber
  | stralias => exact still fun _ _ => keeps_nameString
  | goto => exact still fun _ _ => keeps_gotoLabel
  | ifHolds | notIf => exact still fun _ _ => keeps_conditional _
  | jumpf => exact still fun _ _ => keeps_jumpForward
  | jumpb => exact still fun _ _ => keeps_jumpBackward
  | skip => exact still fun _ _ => keeps_skipLines
  | game => exact still fun _ _ => keeps_startGame
  | defsub => exact still fun _ _ => keeps_defineSubroutine
  | textgosub => exact still fun _ _ => keeps_setTextHook
  | pretextgosub => exact still fun _ _ => keeps_setPretextHook
  | gettag => exact still fun _ _ => keeps_getTag
  | clickstr => exact still fun _ _ => keeps_chooseClickMarkers
  | savegame => exact still fun _ _ => keeps_saveGame
  | savefileexist => exact still fun _ _ => keeps_testSlot
  | endScript | reset => exact .pure _
  | labellog | filelog | globalon | kidokuskip =>
    exact .change (J := fun _ => True) (fun _ _ => trivial) (.pure _)

/-- A new game closes everything before it looks for its first label. -/
theorem fails_restart {I : Machine → Prop} (frames : List Frame) :
    Fails I (Spares frames (· = [])) restart :=
  .change (fun _ _ => rfl) (fails_jumpTo _ _)

/-- What a command asks for fails with a fault of control only if it is a new game. -/
theorem fails_complete {I : Machine → Prop} {frames : List Frame} (outcome : Outcome) :
    Fails I (Spares frames fun after => outcome = .restart ∧ after = []) (complete outcome) := by
  by_cases h : outcome = .restart
  · subst h
    have hrestart : Fails I (Spares frames fun after => Outcome.restart = .restart ∧ after = []) restart :=
      (fails_restart frames).imp (fun _ h => h) fun _ _ hm => ⟨hm.1, fun hkind => ⟨rfl, hm.2 hkind⟩⟩
    exact .bind (J := fun _ _ => True) hrestart (fun _ _ _ _ _ => trivial) fun _ => .pure _
  · exact fails_of_harmless (harmless_complete h)

/-- A statement is about to be executed: the machine is inside its script, its handlers are labels,
and it is known what is open and what command words stand for. -/
structure Ready (script : Script) (nesting : Nesting) (table : CommandTable) (m : Machine) :
    Prop where
  /-- The machine is inside the script, with these calls and loops open. -/
  stands : Stands script nesting m
  /-- The handlers are labels. -/
  handled : Handled m
  /-- Words stand for these commands. -/
  commands : m.commands = table

variable {table : CommandTable}

/-- A built-in command that is carried out. -/
theorem fails_execute_complete (command : Command) :
    Fails (Ready script nesting table)
      (Spares nesting.frames (Resolution.Leaves nesting.frames · (some (.builtin command))))
      (execute command >>= complete) := by
  by_cases hreset : command = .reset
  · subst hreset
    exact (fails_complete .restart).imp (fun _ h => h) fun _ _ hm => ⟨hm.1, fun h => (hm.2 h).2⟩
  · refine .bind (J := fun outcome _ => outcome ≠ .restart)
      ((fails_execute command).imp (fun _ h => h.stands) fun _ _ h => h) (fun m outcome m' hm h => ?_)
      fun outcome => ?_
    · exact (goesOn_execute hreset).gives hm.handled h
    · intro m fault m' houtcome h
      exact spares_of_not_ofControl (harmless_complete houtcome trivial h)

/-- These calls and loops are open, and the handlers are labels. -/
def Narrates (nesting : Nesting) (m : Machine) : Prop :=
  m.nesting = nesting ∧ Handled m

private theorem Ready.narrates (h : Ready script nesting table m) : Narrates nesting m :=
  ⟨h.stands.2, h.handled⟩

/-- A run of text fails before its handler is called, or because the handler is refused. -/
theorem fails_readText :
    Fails (Narrates nesting) (Spares nesting.frames (· = nesting.frames)) readText := by
  have hsame : ∀ (fault : Fault) (m : Machine), Narrates nesting m →
      Spares nesting.frames (· = nesting.frames) fault m :=
    fun _ _ hm => ⟨fun _ => by rw [hm.1], fun _ => by rw [hm.1]⟩
  refine .get fun m₀ _ => ?_
  have hmark : Keeps (Narrates nesting) (markRead m₀.pc) :=
    keeps_markRead_of (fun _ _ h => h) _
  refine .keep (.ofKeeps hmark hsame) hmark fun seen => .get fun m hm => ?_
  refine .keep (.modify _) (.set hm) fun _ => ?_
  refine .ofExcept_bind (fun fault _ s hs => hsame fault s hs) fun delivery _ => ?_
  refine .keep (fails_of_harmless (harmless_warnAll _)) (keeps_warnAll_of (fun _ _ _ h => h) _) fun _ => ?_
  refine .keep (.modify _) (.modify fun _ hm => hm) fun _ => .ite (fun _ => ?_) fun _ =>
    .look fun m hm => ?_
  · exact .change (J := fun _ => True) (fun _ _ => trivial) (.ite (fun _ => .pure _) fun _ => .pure _)
  · cases hhook : m.textHook with
    | none => exact .pure _
    | some label =>
      refine fails_handler (fun s hs => hs ▸ hm.1) _ (fun s hs => ?_) _
      exact hs ▸ hm.2 label (.inl hhook)

/-- So does a tag. -/
theorem fails_runTag (start next : Nat) (tag : Bytes) :
    Fails (Narrates nesting) (Spares nesting.frames (· = nesting.frames))
      (runTag start next tag) := by
  have hmark : Keeps (Narrates nesting) (discard (markRead start)) :=
    (keeps_markRead_of (fun _ _ h => h) start).discard
  refine .keep (.ofKeeps hmark fun fault m hm => ?_) hmark fun _ => ?_
  · exact ⟨fun _ => by rw [hm.1], fun _ => by rw [hm.1]⟩
  refine .keep (.modify _) (.modify fun _ hm => hm) fun _ => .look fun m hm => ?_
  cases hhook : m.pretextHook with
  | none => exact .change (J := fun _ => True) (fun _ _ => trivial) (.pure _)
  | some label =>
    refine fails_handler (fun s hs => hs ▸ hm.1) _ (fun s hs => ?_) _
    exact hs ▸ hm.2 label (.inr hhook)

/-- What a command word stands for is carried out. -/
theorem fails_runCommand (start : Nat) {operands : Nat} (hoperands : operands ≤ script.size)
    (word : CommandWord) :
    Fails (Ready script nesting table)
      (Spares nesting.frames (Resolution.Leaves nesting.frames · (some (table.resolve word))))
      (runCommand start operands word) := by
  have hmark : ∀ {left : List Frame → Prop} {f : Unit → Run Event},
      Fails (Ready script nesting table) (Spares nesting.frames left) (f ()) →
      Fails (Ready script nesting table) (Spares nesting.frames left)
        (discard (markRead start) >>= f) := by
    intro left f hf m fault m' hm h
    rw [Action.bind_of_ok (discard_markRead m start)] at h
    refine hf ?_ h
    exact ⟨hm.stands, hm.handled, hm.commands⟩
  have hmove : Keeps (Ready script nesting table) (moveTo operands) := fun m hm =>
    ⟨stands_of_still (fun _ _ => keeps_moveTo hoperands) hm.stands, hm.handled, hm.commands⟩
  refine .keep (.modify _) (.modify fun _ hm => ⟨hm.stands, hm.handled, hm.commands⟩) fun _ => ?_
  refine .get fun m hm => ?_
  rw [hm.commands]
  cases table.resolve word with
  | builtin command =>
    exact hmark (.keep (.modify _) hmove fun _ => fails_execute_complete command)
  | subroutine label =>
    exact hmark (.get fun m hm => (fails_call _ label _).imp (fun _ h => h.stands) fun _ _ h => h)
  | host name => exact hmark (.change (J := fun _ => True) (fun _ _ => trivial) (.pure _))
  | unknown =>
    refine .ite (fun _ => .throw fun _ _ => spares_of_not_ofControl (by simp [Fault.kind])) fun _ => ?_
    exact .change (fun m hm => hm.narrates) fails_readText

/-- What the word of the statement at the current address stands for, if it begins with one. -/
def resolution? (m : Machine) : Option Resolution :=
  match (m.script.statementAt m.pc m.pretextHook.isSome).kind with
  | .command word => some (m.commands.resolve word)
  | _ => none

/-- How a statement leaves what is open when it fails with a fault of control. -/
theorem spares_runStatement {fault : Fault} {after : Machine} (hinside : m.core.Inside m.script)
    (hhandled : Handled m) (h : runStatement m = .error fault after) :
    Spares m.nesting.frames (Resolution.Leaves m.nesting.frames · m.resolution?) fault after := by
  let statement := m.script.statementAt m.pc m.pretextHook.isSome
  obtain ⟨hstart, hoperands⟩ := m.script.statementAt_le_size m.pc m.pretextHook.isSome
  let begun : Machine := { m with statementStart := statement.start, statementName := none }
  have hready : Ready m.script m.nesting m.commands begun :=
    ⟨⟨⟨rfl, hinside.labels, hinside.pc, hstart, hinside.lastSection, hinside.nesting⟩, rfl⟩, hhandled,
      rfl⟩
  have hwarn : Keeps (Ready m.script m.nesting m.commands) (warnAll statement.warnings) :=
    keeps_warnAll_of (fun _ _ _ h => ⟨h.stands, h.handled, h.commands⟩) _
  change (warnAll statement.warnings >>= fun _ => _) begun = .error fault after at h
  refine Fails.keep (fails_of_harmless (harmless_warnAll _)) hwarn (fun _ => ?_) hready h
  have hdone : ∀ {left : List Frame → Prop} (g : Machine → Machine) (event : Event),
      Fails (Ready m.script m.nesting m.commands) (Spares m.nesting.frames left)
        (modify g >>= fun _ => pure event) :=
    fun _ _ => .change (J := fun _ => True) (fun _ _ => trivial) (.pure _)
  unfold resolution?
  cases hkind : statement.kind with
  | endOfScript => exact fails_of_harmless (.bind harmless_finishProgram fun _ => .pure _)
  | comment | endOfLine | sectionMarker | label name => exact hdone _ _
  | pretextTag tag => exact (fails_runTag _ _ tag).imp (fun _ h => h.narrates) fun _ _ h => h
  | command word => exact fails_runCommand _ hoperands word
  | text => exact .change (fun m hm => hm.narrates) fails_readText

/-- What the word that the next step comes to stands for, if a statement is executed that begins
with one. -/
def nextResolution? (m : Machine) : Option Resolution :=
  match m.settled? with
  | some settled => if settled.ended || settled.inText then none else settled.resolution?
  | none => none

private theorem located_eq_error {action : Run α} {failure : Failure} {after : Machine}
    (h : located action m = .error failure after) : action m = .error failure.fault after := by
  unfold located at h
  split at h
  · cases h
  · next fault after' haction =>
    cases h
    exact haction

/-- Finishing a command of the host fails with a fault of control only if none is pending, or if a
new game was asked for. -/
theorem spares_finishCommand {outcome : Outcome} {failure : Failure} {after : Machine}
    (h : finishCommand outcome m = .error failure after) :
    Spares m.nesting.frames (fun left => outcome = .restart ∧ left = []) failure.fault after := by
  by_cases hpending : m.pendingHost.isSome
  · change (if m.pendingHost.isSome then _ else _ : Located Event) m = _ at h
    rw [if_pos hpending] at h
    exact fails_complete outcome trivial (located_eq_error (α := Event) h) (I := fun _ => True)
  · change (if m.pendingHost.isSome then _ else _ : Located Event) m = _ at h
    rw [if_neg hpending] at h
    cases h
    exact spares_of_controlFlow rfl rfl

/-- How a step leaves what is open when it fails with a fault of control. -/
theorem spares_step {failure : Failure} {after : Machine} (hm : Reachable m)
    (h : step m = .error failure after) :
    Spares m.nesting.frames (Resolution.Leaves m.nesting.frames · m.nextResolution?) failure.fault
      after := by
  unfold nextResolution?
  cases hsettled : m.settled? with
  | none =>
    obtain ⟨failure', after', hfinish, hstep⟩ := step_of_not_settled hsettled
    cases hstep.symm.trans h
    obtain ⟨hcontrol, hlabel⟩ := spares_finishCommand hfinish
    exact ⟨hcontrol, fun hkind => nomatch (hlabel hkind).1⟩
  | some settled =>
    rw [step_of_settled? hsettled] at h
    have hevolves : Evolves .still m.script m settled := (Evolves.refl hm.inside).settled hsettled
    have hhandled : Handled settled :=
      of_settled? (fun _ _ h => h) (fun _ _ _ h => h) hm.handled hsettled
    rw [← hevolves.nesting_eq (.inl rfl)]
    dsimp only
    change (if settled.ended then _ else if settled.inText then _ else _ : Located Event) settled = _ at h
    cases hended : settled.ended with
    | true =>
      rw [hended] at h
      cases h
    | false =>
      cases htext : settled.inText with
      | true =>
        rw [hended, htext] at h
        exact fails_readText ⟨rfl, hhandled⟩ (located_eq_error (α := Event) h)
      | false =>
        rw [hended, htext] at h
        have hinside := hevolves.inside
        rw [← hevolves.script_eq] at hinside
        exact spares_runStatement hinside hhandled (located_eq_error (α := Event) h)

/-- **What is open after a failing step.** From a machine that can be reached, a step or the
finishing of a command that fails because calls and loops do not match, or would be too many, leaves
the frames exactly as they were. A failure because a label does not exist leaves them as they were,
too, unless it comes out of a call, which leaves its frame open, out of a return or the leaving of a
loop, which leave theirs closed, or out of a new game, which leaves none. -/
theorem Reachable.frames_of_failure (h : Reachable m) :
    (∀ failure after, step m = .error failure after →
      (failure.fault.kind = .controlFlow → after.nesting.frames = m.nesting.frames) ∧
      (failure.fault.kind = .undefinedLabel →
        Resolution.Leaves m.nesting.frames after.nesting.frames m.nextResolution?)) ∧
    ∀ outcome failure after, finishCommand outcome m = .error failure after →
      (failure.fault.kind = .controlFlow → after.nesting.frames = m.nesting.frames) ∧
      (failure.fault.kind = .undefinedLabel → outcome = .restart ∧ after.nesting.frames = []) :=
  ⟨fun _ _ hstep => spares_step h hstep, fun _ _ _ hfinish => spares_finishCommand hfinish⟩

/-- The category of the fault with which a step fails, and what is open after it. -/
def stepFailure? (m : Machine) : Option (FaultKind × List Frame) :=
  match step m with
  | .ok _ _ => none
  | .error failure after => some (failure.fault.kind, after.nesting.frames)

private theorem exists_of_stepFailure? {kind : FaultKind} {frames : List Frame}
    (h : m.stepFailure? = some (kind, frames)) : ∃ failure after, step m = .error failure after ∧
      failure.fault.kind = kind ∧ after.nesting.frames = frames := by
  unfold stepFailure? at h
  split at h
  · cases h
  · next failure after hstep =>
    cases h
    exact ⟨failure, after, hstep, rfl, rfl⟩

/-- A return inside a loop. -/
def returningLoop : Script where
  bytes := (Bytes.ofText "for %0=1 to 9:return:next:end").toArray
  encoding := .utf8

/-- The machine that has opened the loop. -/
def returning : Machine :=
  ((fresh returningLoop { variableSlots := 2 } .absent).serve .step).2

/-- The return fails, and the loop is still open. -/
theorem frames_of_failure_returning :
    Reachable returning ∧ ∃ failure after, step returning = .error failure after ∧
      failure.fault.kind = .controlFlow ∧ after.nesting.frames = returning.nesting.frames ∧
      returning.nesting.frames = [.loop ⟨.int 0, 9, 1, 14, false⟩] := by
  have hreachable : Reachable returning :=
    .serve (.load (show load returningLoop { variableSlots := 2 } .absent = .ok _ from rfl)) _
  have hfails : returning.stepFailure?.map Prod.fst = some .controlFlow := by decide +kernel
  obtain ⟨⟨_, _⟩, hfailure, rfl⟩ := Option.map_eq_some_iff.mp hfails
  obtain ⟨failure, after, hstep, hkind, -⟩ := exists_of_stepFailure? hfailure
  have hframes := (hreachable.frames_of_failure.1 failure after hstep).1 hkind
  exact ⟨hreachable, failure, after, hstep, hkind, hframes, by decide +kernel⟩

/-- A call of a label that does not exist. -/
def strayCall : Script where
  bytes := (Bytes.ofText "gosub *nowhere\nend\n").toArray
  encoding := .utf8

/-- The machine at the start of this script. -/
def calling : Machine :=
  fresh strayCall { variableSlots := 2 } .absent

/-- It is not so that every such failure leaves open what was open: a call of a label that does not
exist leaves its frame behind. -/
theorem frame_left_strayCall :
    ¬ ∀ m, Reachable m → ∀ failure after, step m = .error failure after →
      failure.fault.kind = .controlFlow ∨ failure.fault.kind = .undefinedLabel →
      after.nesting.frames = m.nesting.frames := by
  intro hspares
  have hreachable : Reachable calling :=
    .load (show load strayCall { variableSlots := 2 } .absent = .ok calling from rfl)
  have hfails : calling.stepFailure? =
      some (.undefinedLabel, [.call { kind := .gosub, returnTo := 14 }]) := by decide +kernel
  obtain ⟨failure, after, hstep, hkind, hframes⟩ := exists_of_stepFailure? hfails
  have hsame := hspares calling hreachable failure after hstep (.inr hkind)
  cases hframes.symm.trans hsame

end Machine

end NovelScript
