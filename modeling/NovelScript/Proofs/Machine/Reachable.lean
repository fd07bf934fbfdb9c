import NovelScript.Proofs.Machine.Commands
import NovelScript.Proofs.Machine.Host

/-!
# What holds of every machine that can be reached

However a host has driven a machine, with calls that succeeded or failed, the machine is inside its
script and its variables are in order.
-/

namespace NovelScript.Machine

open NovelScript.Action (Keeps)

variable {α : Type} {way : Nesting.Direction} {script : Script} {first m : Machine}

/-! ## Calls of the host -/

/-- The place that is told with a failure does not matter for what is kept. -/
theorem keeps_located {I : Machine → Prop} {action : Run α} (h : Keeps I action) :
    Keeps I (located action) := fun m hm => after_located action m ▸ h hm

/-- Nor does its absence. -/
theorem keeps_unlocated {I : Machine → Prop} {action : Run α} (h : Keeps I action) :
    Keeps I (unlocated action) := fun m hm => after_unlocated action m ▸ h hm

private theorem keeps_finishCommand (outcome : Outcome) (h : outcome = .restart → way = .outward) :
    Keeps (Evolves way script first) (finishCommand outcome) := by
  refine .get fun m _ => .ite (fun _ => ?_) fun _ => .throw _
  refine .bind (.modify fun _ hm => hm.aside rfl rfl) fun _ => ?_
  exact keeps_located (keeps_complete outcome h)

/-- The machine once the command of the host that is pending, if there is one, is finished; nothing
if that fails. -/
def settled? (m : Machine) : Option Machine :=
  if m.pendingHost.isSome then
    match finishCommand .advance m with
    | .ok _ settled => some settled
    | .error _ _ => none
  else some m

/-- What a step does once no command of the host is pending. -/
def stepSettled : Located Event := do
  let m ← get
  if m.ended then return .ended
  else if m.inText then located readText
  else located runStatement

/-- A pending command of the host is finished before the step. -/
theorem step_of_pending (h : m.pendingHost.isSome) :
    step m = (discard (finishCommand .advance) >>= fun _ => stepSettled) m := by
  show (if m.pendingHost.isSome then _ else _ : Located Event) m = _
  rw [if_pos h]
  rfl

/-- If none is pending, the step begins at once. -/
theorem step_of_not_pending (h : ¬ m.pendingHost.isSome) : step m = stepSettled m := by
  show (if m.pendingHost.isSome then _ else _ : Located Event) m = _
  rw [if_neg h]
  rfl

/-- A step goes on where the command of the host was finished. -/
theorem step_of_settled? {settled : Machine} (h : m.settled? = some settled) :
    step m = stepSettled settled := by
  unfold settled? at h
  by_cases hpending : m.pendingHost.isSome
  · rw [if_pos hpending] at h
    cases hfinish : finishCommand .advance m with
    | ok event after =>
      rw [hfinish] at h
      cases h
      rw [step_of_pending hpending, Action.bind_of_ok (Action.discard_of_ok hfinish)]
    | error failure after =>
      rw [hfinish] at h
      cases h
  · rw [if_neg hpending] at h
    cases h
    exact step_of_not_pending hpending

/-- After a pending command was finished the step goes on from there. -/
theorem after_step_of_settled? {settled : Machine} (h : m.settled? = some settled) :
    Action.after step m = Action.after stepSettled settled := by
  rw [Action.after, step_of_settled? h, Action.after]

/-- A step that cannot finish the command of the host does no more than to try. -/
theorem step_of_not_settled (h : m.settled? = none) :
    ∃ failure after, finishCommand .advance m = .error failure after ∧
      step m = .error failure after := by
  unfold settled? at h
  by_cases hpending : m.pendingHost.isSome
  · rw [if_pos hpending] at h
    cases hfinish : finishCommand .advance m with
    | ok event after =>
      rw [hfinish] at h
      cases h
    | error failure after =>
      refine ⟨failure, after, rfl, ?_⟩
      rw [step_of_pending hpending, Action.bind_of_error (Action.discard_of_error hfinish)]
  · rw [if_neg hpending] at h
    cases h

/-- If finishing it fails, so does the step. -/
theorem after_step_of_not_settled (h : m.settled? = none) :
    Action.after step m = Action.after (finishCommand .advance) m := by
  obtain ⟨failure, after, hfinish, hstep⟩ := step_of_not_settled h
  rw [Action.after_of_error hfinish, Action.after_of_error hstep]

/-- Finishing a command of the host only moves on, and may warn. -/
theorem of_settled? {I : Machine → Prop} (hmove : ∀ m pc, I m → I { m with pc })
    (hwarn : ∀ m count journal, I m → I { m with warningCount := count, journal })
    (hm : I { m with pendingHost := none }) {settled : Machine} (h : m.settled? = some settled) :
    I settled := by
  unfold settled? at h
  by_cases hpending : m.pendingHost.isSome
  · have hfinish : I (Action.after (finishCommand .advance) m) := by
      refine Keeps.choose (fun _ => ?_) fun hnone => absurd hpending hnone
      exact keeps_located (.bind (keeps_endStatement_of hmove hwarn) fun _ => .pure _) hm
    rw [if_pos hpending] at h
    split at h
    · next event after hrun =>
      cases h
      rwa [Action.after_of_ok hrun] at hfinish
    · cases h
  · rw [if_neg hpending] at h
    cases h
    have hnone : m.pendingHost = none := by simpa using hpending
    rwa [show ({ m with pendingHost := none } : Machine) = m by rw [← hnone]] at hm

/-- Nothing is pending any more. -/
theorem pendingHost_of_settled? {settled : Machine} (h : m.settled? = some settled) :
    settled.pendingHost = none :=
  of_settled? (I := fun m => m.pendingHost = none) (fun _ _ hm => hm) (fun _ _ _ hm => hm) rfl h

/-- No statement begins before the command of the host is finished. -/
theorem statementStart_of_settled? {settled : Machine} (h : m.settled? = some settled) :
    settled.statementStart = m.statementStart :=
  of_settled? (I := fun n => n.statementStart = m.statementStart) (fun _ _ hm => hm)
    (fun _ _ _ hm => hm) rfl h

/-- Finishing a command of the host changes nothing that is open. -/
theorem Evolves.settled (h : Evolves way script first m) {settled : Machine}
    (hsettled : m.settled? = some settled) : Evolves way script first settled := by
  unfold settled? at hsettled
  split at hsettled
  · have hfinished := keeps_finishCommand .advance nofun h
    split at hsettled
    · next event after hfinish =>
      cases hsettled
      rwa [Action.after_of_ok hfinish] at hfinished
    · cases hsettled
  · cases hsettled
    exact h

/-- The direction in which a step changes what is open. -/
def stepDirection (m : Machine) : Nesting.Direction :=
  match m.settled? with
  | none => .still
  | some settled =>
    if settled.ended then .still
    else if settled.inText then .handling
    else settled.statementDirection

/-- A step changes what is open in one direction only. -/
theorem evolves_step (hway : m.stepDirection = way)
    (hfirst : m.statementStart = first.statementStart) (hm : Evolves way script first m) :
    Evolves way script first (Action.after step m) := by
  unfold stepDirection at hway
  cases hsettled : m.settled? with
  | none =>
    rw [after_step_of_not_settled hsettled]
    exact keeps_finishCommand .advance nofun hm
  | some settled =>
    rw [hsettled] at hway
    dsimp only at hway
    have hm' := hm.settled hsettled
    rw [after_step_of_settled? hsettled]
    refine Keeps.choose (fun hended => hm') fun hended => ?_
    rw [if_neg hended] at hway
    refine Keeps.choose (fun htext => ?_) fun htext => ?_
    · rw [if_pos htext] at hway
      subst hway
      exact keeps_located keeps_readText hm'
    · rw [if_neg htext] at hway
      rw [after_located]
      exact evolves_runStatement hway ((statementStart_of_settled? hsettled).trans hfirst) hm'

private theorem keeps_resume (save : Save) : Keeps (Evolves .anew script first) (resume save) :=
  .get fun _ hm => .ofExcept_bind fun _ h => .set (hm.restore h)

/-- The direction in which a call of the host changes what is open. -/
def HostCall.direction (m : Machine) : HostCall → Nesting.Direction
  | step => m.stepDirection
  | finish _ => .outward
  | loadSlot _ | restore _ => .anew
  | edit _ => .edited
  | _ => .still

private theorem keeps_reply {action : Run α} {f : α → Reply}
    (h : Keeps (Evolves way script first) action) :
    Keeps (Evolves way script first) (do return f (← unlocated action)) :=
  .bind (keeps_unlocated h) fun _ => .pure _

/-- Every call of the host changes the core only by the listed changes, those of what is open all in
one direction. -/
theorem evolves_perform (call : HostCall) (hway : call.direction m = way)
    (hfirst : m.statementStart = first.statementStart) (hm : Evolves way script first m) :
    Evolves way script first (Action.after call.perform m) := by
  cases call with
  | step => exact Keeps.andThen (evolves_step hway hfirst hm) fun _ => .pure _
  | finish outcome =>
    subst hway
    exact Keeps.bind (keeps_finishCommand outcome fun _ => rfl) (fun _ => .pure _) hm
  | readInt => exact keeps_reply keeps_readInt hm
  | readStr => exact keeps_reply keeps_readStr hm
  | readLabel => exact keeps_reply keeps_readLabel hm
  | readVarRef => exact keeps_reply keeps_readVarRef hm
  | skipOperands =>
    refine Keeps.bind (.modify fun _ hm => ?_) (fun _ => .pure _) hm
    exact hm.move (hm.statementEnd_le _) rfl rfl
  | eatKeyword word => exact keeps_reply (keeps_eatKeyword _) hm
  | eatToken token => exact keeps_reply (keeps_eatToken _) hm
  | startAt name => exact keeps_reply (keeps_jumpTo _) hm
  | registerHost name =>
    exact Keeps.bind (.modify fun _ hm => hm.aside rfl rfl) (fun _ => .pure _) hm
  | recordFile name =>
    exact Keeps.bind (.modify fun _ hm => hm.log (.file name) rfl) (fun _ => .pure _) hm
  | edit change =>
    subst hway
    refine keeps_reply (keeps_updateStore fun _ _ h => ⟨change, fun hway => ?_, h⟩) hm
    cases hway
  | savePersistent => exact keeps_reply keeps_savePersistent hm
  | saveSlot slot resume description => exact keeps_reply (keeps_saveSlot _ _ _) hm
  | loadSlot slot =>
    subst hway
    exact keeps_reply (keeps_loadSlot _) hm
  | restore save =>
    subst hway
    exact keeps_reply (keeps_resume _) hm

/-- A call of the host, from a machine that is inside its script. -/
theorem evolves_serve (hm : m.core.Inside script) (call : HostCall) :
    Evolves (call.direction m) script m (m.serve call).2 := by
  rw [serve_snd]
  exact evolves_perform call rfl rfl (Evolves.refl hm)

/-- An edit of the host fails and changes nothing, or it changes the variables only. -/
theorem serve_edit_cases (m : Machine) (change : Store.Edit) :
    (m.serve (.edit change)).2 = m ∨
      ∃ store, change.apply m.store = .ok store ∧ (m.serve (.edit change)).2 = { m with store } := by
  let Edited (n : Machine) : Prop :=
    n = m ∨ ∃ store, change.apply m.store = .ok store ∧ n = { m with store }
  rw [serve_snd]
  refine Keeps.andThen (I := Edited) ?_ fun _ => .pure _
  rw [after_unlocated]
  refine Keeps.ofExcept_andThen (I := Edited) (.inl rfl) ?_
  exact fun store hstore => .inr ⟨store, hstore, rfl⟩

/-! ## Loading -/

/-- The globals of another session are put into new variables by edits. -/
theorem edits_loadGlobals {store : Store} (h : m.loadGlobals = .ok store) :
    Store.Edits Store.Edit.Fits m.store store := by
  rw [loadGlobals] at h
  split at h
  · cases h
    exact .refl
  · next bytes _ =>
    have hedits : Store.Edits Store.Edit.Fits m.store (m.store.restoreGlobals bytes).2 := by
      refine Store.edits_restoreGlobalsFrom fun other hborder k hk num str => .inr ?_
      omega
    split at h
    · next hrestored =>
      cases h
      rwa [hrestored] at hedits
    · cases h

variable {settings : Settings} {saves : SaveArea} {entropy : RandomSource} {library : Library}

/-- A machine that was loaded is inside its script. -/
theorem inside_load (h : Machine.load script settings saves entropy library = .ok m) :
    m.core.Inside script := by
  obtain ⟨labelLog, fileLog, store, -, -, -, rfl⟩ := loadPersistent_eq_ok h
  exact ⟨rfl, rfl, Nat.zero_le _, Nat.zero_le _, by simp [core, fresh],
    by simp [core, fresh, Nesting.Within]⟩

/-- The variables of a machine that was loaded are in order. -/
theorem wellFormed_load (h : Machine.load script settings saves entropy library = .ok m) :
    m.store.WellFormed := by
  obtain ⟨labelLog, fileLog, store, -, -, hstore, rfl⟩ := loadPersistent_eq_ok h
  exact (Store.wellFormed_blank _ _).edits (edits_loadGlobals hstore)

/-! ## Reachable machines -/

/-- **A machine that can be reached is inside its script.** -/
theorem Reachable.inside (h : Reachable m) : m.core.Inside m.script := by
  induction h with
  | load h =>
    have hinside := inside_load h
    obtain rfl := hinside.script
    exact hinside
  | serve h call ih =>
    have hnext := evolves_serve ih call
    rw [hnext.script_eq]
    exact hnext.inside

/-- A machine goes on using the random numbers and the encoding that it was given, whatever the host
calls. -/
theorem Reachable.given_serveAll (h : Reachable m) (calls : List HostCall) :
    (m.serveAll calls).2.chance.source = m.chance.source ∧ (m.serveAll calls).2.table = m.table := by
  induction calls generalizing m with
  | nil => exact ⟨rfl, rfl⟩
  | cons call calls ih =>
    obtain ⟨hsource, htable⟩ := (evolves_serve h.inside call).given
    obtain ⟨hsource', htable'⟩ := ih (h.serve call)
    rw [serveAll_cons]
    exact ⟨hsource'.trans hsource, htable'.trans htable⟩

/-- **The variables of a machine that can be reached are in order.** -/
theorem Reachable.wellFormed (h : Reachable m) : m.store.WellFormed := by
  induction h with
  | load h => exact wellFormed_load h
  | serve h call ih => exact ih.edits (Core.edits_of_steps (evolves_serve h.inside call).steps)

end NovelScript.Machine
