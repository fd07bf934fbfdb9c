import NovelScript.Proofs.Machine.Loads
import NovelScript.Proofs.Store.Room

/-!
# Numbers that a script can choose

Whatever a script does, the slots that it writes have numbers of 31 bits, its arrays are as they
were declared, and its loops count in such slots. Changes of the core keep this as long as neither a
saved game nor the host brings in anything else. A saved game does not if its slots have such
numbers, and so it may come from the host or from a save file.
-/

namespace NovelScript

/-! ## Numbers of counters -/

namespace Nesting

/-- The counters of all open loops have numbers that a script can write. -/
def CountersFit (nesting : Nesting) : Prop :=
  ∀ frame, Frame.loop frame ∈ nesting.frames → frame.counter.Numbered

variable {size : Nat} {store : Store} {way : Direction} {nesting next : Nesting}

/-- Reading an operand of a command leaves the loops alone. -/
theorem loop_mem_setParamsIn {addr : Nat} {frames : List Frame} {loop : LoopFrame}
    (h : Frame.loop loop ∈ setParamsIn addr frames) : Frame.loop loop ∈ frames := by
  induction frames with
  | nil => exact h
  | cons first frames ih =>
    cases first with
    | loop frame => exact List.mem_cons.mpr ((List.mem_cons.mp h).imp_right ih)
    | call frame =>
      rw [setParamsIn] at h
      split at h
      · simpa using h
      · exact List.mem_cons.mpr ((List.mem_cons.mp h).imp_right ih)

/-- Unless a saved game is loaded, the counter of a loop is that of a loop that was open before, or
it could be read when the loop was opened. -/
theorem Change.counter (h : Change size store nesting way next) (hway : way ≠ .anew)
    {loop : LoopFrame} (hloop : Frame.loop loop ∈ next.frames) :
    (∃ before, Frame.loop before ∈ nesting.frames ∧ before.counter = loop.counter) ∨
      loop.counter.Numbered ∧ ∃ value, store.readInt loop.counter = .ok value := by
  cases h with
  | call | command | handler | handlerCall => exact .inl ⟨loop, by simpa using hloop, rfl⟩
  | loop hbody hstep hcounter hnumber hread =>
    rcases List.mem_cons.mp hloop with heq | hloop
    · cases heq
      exact .inr ⟨hnumber, hread⟩
    · exact .inl ⟨loop, hloop, rfl⟩
  | finish hfinish =>
    obtain ⟨_ | ⟨⟨frame⟩ | ⟨frame⟩, frames⟩, cap⟩ := nesting
    · cases hfinish
    · cases hfinish
    · cases hfinish
      rcases List.mem_cons.mp hloop with heq | hloop
      · cases heq
        exact .inl ⟨frame, List.mem_cons_self, rfl⟩
      · exact .inl ⟨loop, List.mem_cons_of_mem _ hloop, rfl⟩
  | params hparams hahead haddr => exact .inl ⟨loop, loop_mem_setParamsIn hloop, rfl⟩
  | close hsuffix => exact .inl ⟨loop, hsuffix.subset hloop, rfl⟩
  | resume hframes => exact absurd rfl hway

/-- Only a saved game brings other counters in than a script can open loops with. -/
theorem CountersFit.change (h : nesting.CountersFit) (hway : way ≠ .anew)
    (hchange : Change size store nesting way next) : next.CountersFit := by
  intro loop hloop
  obtain ⟨before, hbefore, hsame⟩ | ⟨hnumber, -⟩ := hchange.counter hway hloop
  · exact hsame ▸ h before hbefore
  · exact hnumber

end Nesting

namespace Core

variable {way : Nesting.Direction} {core next : Core}

/-- Slots, arrays and counters are as a script can choose them. -/
structure NumbersFit (core : Core) : Prop where
  /-- Local slots can be named, and arrays could be declared. -/
  store : core.store.NumbersFit
  /-- Counters of loops can be named. -/
  counters : core.nesting.CountersFit

/-- No change of a script breaks this. -/
theorem NumbersFit.step (h : core.NumbersFit) (hway : way.fitting = true)
    (hstep : Step way core next) : next.NumbersFit := by
  cases hstep with
  | move | begin | pass => exact ⟨h.store, h.counters⟩
  | edit hedits =>
    have hfits := hedits.mono fun _ _ hallowed => (hallowed hway).fits
    exact ⟨h.store.edits hfits, h.counters⟩
  | count hframe hwrite =>
    obtain ⟨edit, hfits, hedit⟩ := Store.edit_of_writeInt hwrite
    exact ⟨h.store.apply (hfits (h.counters _ hframe)).fits hedit, h.counters⟩
  | nest hchange =>
    have hanew : way ≠ .anew := by
      rintro rfl
      cases hway
    exact ⟨h.store, h.counters.change hanew hchange⟩

private theorem NumbersFit.steps (h : core.NumbersFit) (hway : way.fitting = true)
    (hsteps : Relation.ReflTransGen (Step way) core next) : next.NumbersFit := by
  induction hsteps with
  | refl => exact h
  | tail _ hstep ih => exact ih.step hway hstep

end Core

/-- The save can be written, and puts no slot back beyond those that can be named. -/
structure Save.Fits (save : Save) : Prop where
  /-- It can be written. -/
  storable : save.Storable
  /-- The local slots have numbers that a script can write. -/
  locals : save.vars.firstLocal + save.vars.locals.length ≤ 2 ^ 31

/-- No save file would put a slot back beyond those that can be named. -/
def SaveArea.Fits (saves : SaveArea) : Prop :=
  ∀ slot bytes save, saves.read? (Save.fileName slot) = some bytes →
    Save.ofBytes bytes = .ok save → save.vars.firstLocal + save.vars.locals.length ≤ 2 ^ 31

namespace Machine

variable {m : Machine}

/-! ## Saved games -/

/-- Going on with a save that fits brings in nothing that could not be saved again. -/
theorem numbersFit_restore (h : m.core.NumbersFit) {save : Save} (hsave : save.Fits)
    {restored : Machine} (hrestore : m.restore save = .ok restored) : restored.core.NumbersFit := by
  obtain ⟨frames, pc, hframes, -, rfl⟩ := restore_eq_ok hrestore
  have hedits : Store.Edits Store.Edit.Fits m.store (save.vars.restore m.store) :=
    SavedVariables.edits_restore trivial
      (fun _ k hk _ _ => .inl (hk.trans_le hsave.locals))
      (fun _ entry hentry _ _ => .inl (hsave.storable.overflow entry hentry).1)
      fun _ entry hentry => hsave.storable.grids entry hentry
  refine ⟨h.store.edits hedits, fun loop hloop => ?_⟩
  obtain ⟨source, hsource, hfound⟩ :=
    exists_of_mem_framesOf hframes _ (List.mem_reverse.mp hloop)
  have hstorable := hsave.storable.frames source hsource
  cases source with
  | call code returnTo params bookmark =>
    rw [frameOf] at hfound
    split at hfound
    · cases hfound
    · obtain ⟨_, -, hfound⟩ := Action.exists_of_bind_eq_ok hfound
      obtain ⟨_, -, hfound⟩ := Action.exists_of_bind_eq_ok hfound
      obtain ⟨_, -, hfound⟩ := Action.exists_of_bind_eq_ok hfound
      cases hfound
  | loop counter bound step body finished =>
    obtain ⟨_, -, hfound⟩ := Action.exists_of_bind_eq_ok hfound
    cases hfound
    exact hstorable.1.numbered

/-! ## Runs of a script -/

/-- The call brings in nothing that could not be saved: the host edits as a script could, or goes on
with a save that fits, and where a save file may be loaded, all of them fit. -/
def HostCall.Fits (m : Machine) : HostCall → Prop
  | edit change => change.Fits m.store
  | restore save => save.Fits
  | call => call.loads m = true → m.saves.Fits

/-- Some script was loaded, and some calls that fit have led to the machine. -/
inductive Played : Machine → Prop where
  /-- A machine at the start of a script. -/
  | load {script : Script} {settings : Settings} {saves : SaveArea} {entropy : RandomSource}
      {library : Library} {m : Machine}
      (h : Machine.load script settings saves entropy library = .ok m) : Played m
  /-- A machine after one more call. -/
  | serve {m : Machine} (h : Played m) (call : HostCall) (hcall : call.Fits m) :
    Played (m.serve call).2

/-- What can be played can be reached. -/
theorem Played.reachable (h : Played m) : Reachable m := by
  induction h with
  | load h => exact .load h
  | serve h call hcall ih => exact ih.serve call

/-- Steps that load no game may be taken. -/
theorem Played.steps (h : Played m) {n : Nat}
    (hplain : ∀ k < n, HostCall.step.loads (m.serveAll (List.replicate k .step)).2 = false) :
    Played (m.serveAll (List.replicate n .step)).2 := by
  induction n generalizing m with
  | zero => exact h
  | succ n ih =>
    have hfirst : HostCall.step.loads m = false := hplain 0 n.succ_pos
    have hnext : Played (m.serve .step).2 := by
      refine h.serve .step fun hloads => ?_
      rw [hfirst] at hloads
      cases hloads
    exact ih hnext fun k hk => hplain (k + 1) (by omega)

/-- All numbers of a machine that was loaded fit. -/
theorem numbersFit_load {script : Script} {settings : Settings} {saves : SaveArea}
    {entropy : RandomSource} {library : Library}
    (h : Machine.load script settings saves entropy library = .ok m) : m.core.NumbersFit := by
  obtain ⟨labelLog, fileLog, store, -, -, hstore, rfl⟩ := loadPersistent_eq_ok h
  constructor
  · exact (Store.numbersFit_blank _ _).edits (edits_loadGlobals hstore)
  · intro loop hloop
    cases hloop

/-- Games that a call may load fit if the call does. -/
theorem HostCall.Fits.offers {call : HostCall} (h : call.Fits m) {save : Save}
    (hoffers : call.Offers m save) : save.Fits := by
  have hstores : m.saves.Fits → ∀ slot, m.Stores slot save → save.Fits := by
    rintro hfiles slot ⟨bytes, hread, hsave⟩
    exact ⟨Save.storable_of_ofBytes hsave, hfiles slot bytes save hread hsave⟩
  cases call with
  | step => exact hoffers.2.elim (hstores (h hoffers.1))
  | loadSlot slot => exact hstores (h rfl) slot hoffers
  | restore given => exact hoffers ▸ h
  | _ => exact absurd hoffers id

/-- A call that fits brings in nothing that could not be saved. -/
theorem numbersFit_serve (hinside : m.core.Inside m.script) (hm : m.core.NumbersFit)
    {call : HostCall} (hcall : call.Fits m) : (m.serve call).2.core.NumbersFit := by
  obtain ⟨way, hway, hevolves⟩ | ⟨change, store, rfl, hstore, hnext⟩ |
    ⟨save, middle, hoffers, hunderway, hrestored⟩ := serve_cases hinside call
  · exact hm.steps hway hevolves.steps
  · rw [hnext]
    exact ⟨hm.store.apply hcall hstore, hm.counters⟩
  · have hmiddle : middle.core.NumbersFit := hm.steps rfl hunderway.evolves.steps
    exact numbersFit_restore hmiddle (hcall.offers hoffers) hrestored

/-- **A script chooses numbers and sizes that can be saved.** -/
theorem Played.numbersFit (h : Played m) : m.core.NumbersFit := by
  induction h with
  | load h => exact numbersFit_load h
  | serve h call hcall ih => exact numbersFit_serve h.reachable.inside ih hcall

end Machine

end NovelScript
