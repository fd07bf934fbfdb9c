import NovelScript.Proofs.Machine.Returning
import NovelScript.Proofs.Machine.Saving
import NovelScript.Proofs.Save.Frames
import NovelScript.Proofs.Shape

/-!
# The stack keeps its shape

However far a script runs, and whichever games are loaded on the way, as long as they were saved
while the same script ran, the open calls and loops are well-shaped. So a return without a label,
from a call out of a handler, closes everything down to the handler that is innermost beneath the
call, and goes on in the text that this handler interrupted.

A saved game passes through a file in which numbers have 32 bits. That frames come back from it
needs that the counters of loops have no more indices than can be counted, which is so because a
counter is read when its loop is opened.
-/

namespace NovelScript

/-- A counter that can be read has room in a save. -/
theorem Store.storable_of_readInt {store : Store}
    (hgrids : ∀ entry ∈ store.grids.table, entry.2.Storable) {counter : VariableRef}
    (hnumber : counter.Numbered) {value : Int32} (hread : store.readInt counter = .ok value) :
    counter.Storable := by
  cases counter with
  | int n | str n => exact hnumber
  | array no indices =>
    obtain ⟨grid, hlookup, hread⟩ := Action.exists_of_bind_eq_ok hread
    obtain ⟨cell, hcell, -⟩ := Action.exists_of_bind_eq_ok hread
    have hgrid : store.grids.get? no = some grid := by
      rw [Grids.lookup] at hlookup
      split at hlookup
      · next hfound =>
        cases hlookup
        exact hfound
      · cases hlookup
    have hlength : indices.length = grid.dims.length := by
      rw [Grid.cell] at hcell
      split at hcell
      · cases hcell
      · next hlength => exact not_not.mp hlength
    show indices.length < 2 ^ 31
    rw [hlength]
    exact (hgrids _ (Table.mem_of_get? hgrid)).axes

/-! ## Along a run -/

/-- What is open is well-shaped, and a save has room for it. -/
structure Core.Sturdy (core : Core) : Prop where
  /-- What is open is well-shaped. -/
  shape : core.nesting.WellShaped
  /-- A save has room for the counters of loops. -/
  counters : ∀ loop, Frame.loop loop ∈ core.nesting.frames → loop.counter.Storable
  /-- A save has room for the arrays. -/
  grids : ∀ entry ∈ core.store.grids.table, entry.2.Storable

namespace Core.Sturdy

variable {way : Nesting.Direction} {core next : Core}

/-- No change of a script breaks this. -/
theorem step (h : core.Sturdy) (hway : way.fitting = true) (hstep : Step way core next) :
    next.Sturdy := by
  cases hstep with
  | move | begin | pass => exact ⟨h.shape, h.counters, h.grids⟩
  | edit hedits =>
    have hfits := hedits.mono fun _ _ hallowed => (hallowed hway).fits
    exact ⟨h.shape, h.counters, Store.storable_grids_edits h.grids hfits⟩
  | count hframe hwrite =>
    obtain ⟨edit, hscripted, hedit⟩ := Store.edit_of_writeInt hwrite
    have hnumber := (h.counters _ hframe).numbered
    exact ⟨h.shape, h.counters,
      Store.storable_grids_apply h.grids (hscripted hnumber).fits hedit⟩
  | nest hchange =>
    have hanew : way ≠ .anew := by
      rintro rfl
      cases hway
    refine ⟨h.shape.change hanew hchange, fun loop hloop => ?_, h.grids⟩
    obtain ⟨before, hbefore, hsame⟩ | ⟨hnumber, value, hread⟩ := hchange.counter hanew hloop
    · exact hsame ▸ h.counters before hbefore
    · exact Store.storable_of_readInt h.grids hnumber hread

private theorem steps (h : core.Sturdy) (hway : way.fitting = true)
    (hsteps : Relation.ReflTransGen (Step way) core next) : next.Sturdy := by
  induction hsteps with
  | refl => exact h
  | tail _ hstep ih => exact ih.step hway hstep

end Core.Sturdy

namespace Machine

variable {script : Script} {s m : Machine} {save : Save}

/-! ## Through a save -/

/-- The save is a snapshot of the machine, or what the file of such a snapshot holds. -/
def Wrote (s : Machine) (save : Save) : Prop :=
  ∃ resume description, save = s.snapshot resume description ∨
    Save.ofBytes (s.snapshot resume description).toBytes = .ok save

/-- What is saved of the frames comes back, or at least the outermost of them. -/
theorem Wrote.frames_prefix (h : s.Wrote save) (hinside : s.core.Inside s.script)
    (hs : s.core.Sturdy) : save.frames <+: s.nesting.frames.reverse.map s.savedFrame := by
  obtain ⟨resume, description, rfl | hread⟩ := h
  · exact List.prefix_rfl
  · have hposition : (s.snapshot resume description).position.Storable :=
      storable_positionOf hinside resume
    have hframes : ∀ saved ∈ (s.snapshot resume description).frames, saved.Storable := by
      intro saved hsaved
      obtain ⟨frame, hframe, rfl⟩ := List.mem_map.mp hsaved
      rw [List.mem_reverse] at hframe
      cases frame with
      | call frame => exact storable_savedFrame_call hinside frame
      | loop frame => exact ⟨hs.counters frame hframe, storable_positionOf hinside frame.body⟩
    exact Save.frames_prefix_of_ofBytes hposition hframes hread

private theorem Wrote.grids (h : s.Wrote save) (hs : s.core.Sturdy) :
    ∀ entry ∈ save.vars.grids, entry.2.Storable := by
  obtain ⟨resume, description, rfl | hread⟩ := h
  · exact hs.grids
  · exact (Save.storable_of_ofBytes hread).grids

/-- The second frame is what one machine makes of the first one, as another machine has saved it. -/
def Refound (s m : Machine) (frame next : Frame) : Prop :=
  m.frameOf (s.savedFrame frame) = .ok next

private theorem refound_call {call : CallFrame} {next : Frame} (h : Refound s m (.call call) next) :
    ∃ call', next = .call call' ∧ call'.kind = call.kind ∧
      ifPresent m.bookmarkOf (call.bookmark.map s.savedBookmark) = .ok call'.bookmark ∧
      ifPresent m.addressOf (call.params.map s.positionOf) = .ok call'.params ∧
      m.addressOf (s.positionOf call.returnTo) = .ok call'.returnTo := by
  rw [Refound, savedFrame, frameOf, CallKind.ofCode?_code] at h
  obtain ⟨bookmark, hbookmark, h⟩ := Action.exists_of_bind_eq_ok h
  obtain ⟨params, hparams, h⟩ := Action.exists_of_bind_eq_ok h
  obtain ⟨returnTo, hreturn, h⟩ := Action.exists_of_bind_eq_ok h
  cases h
  exact ⟨_, rfl, rfl, hbookmark, hparams, hreturn⟩

private theorem refound_loop {loop : LoopFrame} {next : Frame} (h : Refound s m (.loop loop) next) :
    ∃ loop', next = .loop loop' ∧ loop'.counter = loop.counter ∧ loop'.step = loop.step := by
  rw [Refound, savedFrame, frameOf] at h
  obtain ⟨body, hbody, h⟩ := Action.exists_of_bind_eq_ok h
  cases h
  exact ⟨_, rfl, rfl, rfl⟩

/-- A bookmark at the return address is found at the return address again, since both are looked up
in the same way. -/
theorem refound_bookmark {bookmark : Bookmark} {found? : Option Bookmark} {returnTo : Nat}
    (h : ifPresent m.bookmarkOf (some (s.savedBookmark bookmark)) = .ok found?)
    (hreturn : m.addressOf (s.positionOf bookmark.addr) = .ok returnTo) :
    ∃ found, found? = some found ∧ found.addr = returnTo := by
  obtain ⟨found, hfound, h⟩ := Action.exists_of_bind_eq_ok h
  obtain ⟨addr, haddr, hfound⟩ := Action.exists_of_bind_eq_ok hfound
  cases hfound
  cases h
  cases hreturn.symm.trans haddr
  exact ⟨_, rfl, rfl⟩

private theorem shaped_refound {frame next : Frame} (h : Refound s m frame next)
    (hframe : frame.Shaped) : next.Shaped := by
  cases frame with
  | loop loop =>
    obtain ⟨loop', rfl, hcounter, hstep⟩ := refound_loop h
    exact ⟨hstep ▸ hframe.1, hcounter ▸ hframe.2⟩
  | call call =>
    obtain ⟨call', rfl, hkind, hbookmark, hparams, hreturn⟩ := refound_call h
    simp only [Frame.Shaped, CallFrame.Shaped] at hframe ⊢
    rw [hkind]
    cases hcall : call.kind with
    | gosub =>
      rw [hcall] at hframe
      rw [hframe.1] at hparams
      rw [hframe.2] at hbookmark
      exact ⟨(Except.ok.inj hparams).symm, (Except.ok.inj hbookmark).symm⟩
    | subroutine =>
      rw [hcall] at hframe
      obtain ⟨addr, haddr⟩ := Option.isSome_iff_exists.mp hframe
      rw [haddr] at hparams
      obtain ⟨found, -, hfound⟩ := Action.exists_of_bind_eq_ok hparams
      rw [← Except.ok.inj hfound]
      rfl
    | textGosub | pretext | rgosub =>
      rw [hcall] at hframe
      obtain ⟨bookmark, hmark, haddr⟩ := hframe
      rw [hmark] at hbookmark
      rw [← haddr] at hreturn
      exact refound_bookmark hbookmark hreturn

private theorem carries_refound (s m : Machine) : Frame.Carries (Refound s m) where
  kinds := by
    intro frame next h
    cases frame with
    | call call =>
      obtain ⟨call', rfl, hkind, -⟩ := refound_call h
      exact .inl ⟨call, call', rfl, rfl, hkind⟩
    | loop loop =>
      obtain ⟨loop', rfl, -⟩ := refound_loop h
      exact .inr ⟨loop, loop', rfl, rfl⟩
  shaped := shaped_refound
  bookmarks := by
    intro call call' handler handler' hcall hhandler hsame
    obtain ⟨_, ⟨⟩, -, hmark, -⟩ := refound_call hcall
    obtain ⟨_, ⟨⟩, -, hmark', -⟩ := refound_call hhandler
    rw [hsame] at hmark'
    exact Except.ok.inj (hmark'.symm.trans hmark)

/-- The frames of a restored game are found from those of the machine that was saved. -/
theorem exists_refound_of_restore {restored : Machine} (hrestore : m.restore save = .ok restored)
    (hframes : save.frames <+: s.nesting.frames.reverse.map s.savedFrame) :
    ∃ lower, lower <:+ s.nesting.frames ∧
      List.Forall₂ (Refound s m) lower restored.nesting.frames := by
  obtain ⟨frames, pc, hfound, -, rfl⟩ := restore_eq_ok hrestore
  have houter := List.prefix_iff_eq_take.mp hframes
  rw [← List.map_take] at houter
  have hrelated := framesOf_eq_ok_iff.mp hfound
  rw [houter, List.forall₂_map_left_iff] at hrelated
  refine ⟨(s.nesting.frames.reverse.take save.frames.length).reverse, ?_, ?_⟩
  · rw [← List.reverse_prefix, List.reverse_reverse]
    exact List.take_prefix _ _
  · exact List.forall₂_reverse_iff.mpr hrelated

/-- A machine that goes on with a game which was saved by a sturdy one is sturdy. -/
theorem sturdy_restore {restored : Machine} (hrestore : m.restore save = .ok restored)
    (hwrote : s.Wrote save) (hinside : s.core.Inside s.script) (hs : s.core.Sturdy) :
    restored.core.Sturdy := by
  obtain ⟨lower, hlower, hrelated⟩ :=
    exists_refound_of_restore hrestore (hwrote.frames_prefix hinside hs)
  have hshape := (hs.shape.close hlower).carry (carries_refound s m) hrelated
  refine ⟨⟨hshape.frames, hshape.anchored⟩, fun loop hloop => ?_, fun entry hentry => ?_⟩
  · obtain ⟨frame, hframe, hfound⟩ := Nesting.exists_of_forall₂_mem hrelated hloop
    cases frame with
    | call call =>
      obtain ⟨_, ⟨⟩, -⟩ := refound_call hfound
    | loop before =>
      obtain ⟨_, ⟨⟩, hcounter, -⟩ := refound_loop hfound
      exact hcounter ▸ hs.counters before (hlower.subset hframe)
  · obtain ⟨frames, pc, -, -, rfl⟩ := restore_eq_ok hrestore
    exact hwrote.grids hs entry (SavedVariables.mem_grids_of_restore hentry)

/-! ## Runs of a script with its own saves -/

/-- The call edits the variables in a way that fits, or it loads only games that were saved by the
machines that they are traced back to. -/
def HostCall.Sourced (m : Machine) (origin : Save → Machine) : HostCall → Prop
  | edit change => change.Fits m.store
  | call => ∀ save, call.Offers m save → (origin save).Wrote save

/-- The script was loaded and some calls have led to the machine. Every game that was loaded on the
way is one that was saved in the same way. -/
inductive Replayed (script : Script) : Machine → Prop where
  /-- A machine at the start of the script. -/
  | load {settings : Settings} {saves : SaveArea} {entropy : RandomSource} {library : Library}
      {m : Machine} (h : Machine.load script settings saves entropy library = .ok m) :
    Replayed script m
  /-- A machine after one more call. -/
  | serve {m : Machine} (h : Replayed script m) (call : HostCall) {origin : Save → Machine}
      (horigin : ∀ save, Replayed script (origin save)) (hcall : call.Sourced m origin) :
      Replayed script (m.serve call).2

namespace Replayed

private theorem reachable (h : Replayed script m) : Reachable m := by
  induction h with
  | load h => exact .load h
  | serve _ call _ _ ih => exact ih.serve call

/-- What is open stays well-shaped along the run. -/
theorem sturdy (h : Replayed script m) : m.core.Sturdy := by
  induction h with
  | load h =>
    obtain ⟨labelLog, fileLog, store, -, -, hstore, rfl⟩ := loadPersistent_eq_ok h
    refine ⟨⟨List.forall_mem_nil _, fun _ _ hsuffix => ?_⟩, fun _ => List.not_mem_nil.elim, ?_⟩
    · cases List.suffix_nil.mp hsuffix
    · exact Store.storable_grids_edits (List.forall_mem_nil _) (edits_loadGlobals hstore)
  | @serve m h call origin horigin hcall ih ihorigin =>
    obtain ⟨way, hway, hevolves⟩ | ⟨change, store, rfl, hchange, hnext⟩ |
      ⟨save, middle, hoffers, -, hrestore⟩ := serve_cases h.reachable.inside call
    · exact ih.steps hway hevolves.steps
    · rw [hnext]
      exact ⟨ih.shape, ih.counters, Store.storable_grids_apply ih.grids hcall hchange⟩
    · have hwrote : (origin save).Wrote save := by
        cases call with
        | edit change => exact absurd hoffers id
        | _ => exact hcall save hoffers
      exact sturdy_restore hrestore hwrote (horigin save).reachable.inside (ihorigin save)

/-- A step that loads no game. -/
theorem stepped (h : Replayed script m) (hplain : HostCall.step.loads m = false) :
    Replayed script m.stepped := by
  refine h.serve .step (fun _ => h) fun save hoffers => ?_
  cases hplain.symm.trans hoffers.1

private theorem steps (h : Replayed script m) (n : Nat)
    (hplain : ∀ k < n, HostCall.step.loads (Machine.stepped^[k] m) = false) :
    Replayed script (Machine.stepped^[n] m) := by
  induction n with
  | zero => exact h
  | succ n ih =>
    rw [Function.iterate_succ_apply']
    exact (ih fun k hk => hplain k (Nat.lt_succ_of_lt hk)).stepped (hplain n (Nat.lt_succ_self n))

end Replayed

/-! ## Returning to the text -/

/-- Everything is closed down to the innermost handler among the given frames, and the text goes on
at the bookmark. -/
def backInText (m : Machine) (frames : List Frame) (bookmark : Bookmark) : Machine :=
  { m with
    nesting := Nesting.unwindHandler { m.nesting with frames }
    pc := bookmark.addr
    narrow := bookmark.narrow
    inText := true }

/-- A return without a label, from a call out of a handler. -/
theorem returnFromCall_rgosub (hmore : m.hasMore = false) {call : CallFrame} {rest : List Frame}
    (hframes : m.nesting.frames = .call call :: rest) (hkind : call.kind = .rgosub)
    {bookmark : Bookmark} (hmark : call.bookmark = some bookmark) :
    returnFromCall m = .ok .stay (m.backInText rest bookmark) := by
  obtain ⟨kind, returnTo, params, mark⟩ := call
  cases hkind
  cases hmark
  have hpop : m.nesting.popCall = .ok
      (⟨.rgosub, returnTo, params, some bookmark⟩, { m.nesting with frames := rest }) := by
    rw [Nesting.popCall, hframes]
  show (if m.hasMore then _ else _ : Run Outcome) m = _
  rw [hmore, if_neg Bool.false_ne_true]
  show (Action.ofExcept m.nesting.popCall >>= _ : Run Outcome) m = _
  rw [hpop]
  rfl

/-- A step that does so succeeds. -/
theorem serve_step_rgosub (hm : Reachable m) (hreturn : m.returnsNext = true) {call : CallFrame}
    {rest : List Frame} (hframes : m.nesting.frames = .call call :: rest)
    (hkind : call.kind = .rgosub) {bookmark : Bookmark} (hmark : call.bookmark = some bookmark) :
    ∃ before : Machine, before.nesting = m.nesting ∧
      m.serve .step = (.ok (.event .continued), before.backInText rest bookmark) := by
  obtain ⟨⟨command, operands⟩, hupcoming, hreturn⟩ := (Option.any_eq_true _ _).mp hreturn
  simp only [Bool.and_eq_true, beq_iff_eq] at hreturn
  obtain ⟨rfl, hend⟩ := hreturn
  obtain ⟨settled, hsettled, hcommand, hstep⟩ := step_of_upcoming? hupcoming
  have hevolves : Evolves .still m.script m settled := (Evolves.refl hm.inside).settled hsettled
  obtain ⟨reading, hnesting, hscript, rfl, hrun⟩ := runStatement_of_command hcommand
  have hsame : reading.nesting = m.nesting := hnesting.trans (hevolves.nesting_eq (.inl rfl))
  have hmore : reading.hasMore = false := by
    have hle : reading.pc ≤ reading.script.size := hscript ▸ operands_le_size hcommand
    rw [← hevolves.script_eq, ← hscript] at hend
    simp only [hasMore, cursor, Nat.min_eq_left hle, hend, Bool.not_true]
  have hreturned := returnFromCall_rgosub hmore (hsame ▸ hframes) hkind hmark
  have hdone : runStatement settled = .ok .continued (reading.backInText rest bookmark) := by
    rw [hrun]
    show (returnFromCall >>= complete : Run Event) reading = _
    rw [Action.bind_of_ok hreturned]
    rfl
  have hlocated : step m = .ok .continued (reading.backInText rest bookmark) := by
    rw [hstep, located, hdone]
  refine ⟨reading, hsame, ?_⟩
  rw [serve, HostCall.perform, Action.bind_of_ok hlocated]
  rfl

/-- **The stack keeps its shape, and a return out of a handler finds the handler.** However a script
runs, with games that were saved while it ran, every open call has what its kind asks for, every
loop moves an integer, and beneath every call out of a handler there is a handler, the innermost of
which has the same bookmark. So a return without a label from such a call closes exactly the frames
down to this handler, and goes on at its bookmark. -/
theorem wellShaped_returns_to_handler (h : Replayed script m) :
    m.nesting.WellShaped ∧
      ∀ call rest, m.returnsNext = true → m.nesting.frames = .call call :: rest →
        call.kind = .rgosub →
          ∃ above handler lower bookmark, rest = above ++ .call handler :: lower ∧
            (∀ frame ∈ above, frame.callOf? .textGosub = none) ∧ handler.kind = .textGosub ∧
            handler.bookmark = some bookmark ∧ (m.serve .step).1 = .ok (.event .continued) ∧
            m.stepped.nesting.frames = lower ∧ m.stepped.pc = bookmark.addr ∧
            m.stepped.narrow = bookmark.narrow ∧ m.stepped.inText = true := by
  have hshape := h.sturdy.shape
  refine ⟨hshape, fun call rest hreturn hframes hkind => ?_⟩
  obtain ⟨handler, hhandler, hsame⟩ :=
    hshape.anchored call rest (hframes ▸ List.suffix_rfl) hkind
  obtain ⟨above, lower, rfl, htext, habove, hunwind⟩ :=
    Nesting.exists_of_handlerIn m.nesting hhandler
  have hcall : (Frame.call handler).Shaped :=
    hshape.frames _ (hframes ▸ List.mem_cons_of_mem _ (by simp))
  obtain ⟨bookmark, hmark, -⟩ := CallFrame.Shaped.textGosub hcall htext
  obtain ⟨before, hnesting, hserve⟩ :=
    serve_step_rgosub h.reachable hreturn hframes hkind (hsame.symm.trans hmark)
  rw [Machine.stepped, hserve]
  rw [← hnesting] at hunwind
  exact ⟨above, handler, lower, bookmark, rfl, habove, htext, hmark, rfl, hunwind, rfl, rfl, rfl⟩

/-- Text is interrupted by a handler, which calls a label out of a loop. The label returns straight
to the text. -/
def pausedLoop : Script where
  bytes := (Bytes.ofText
    "textgosub *h\n-@-\n*h\nfor %0=1 to 2\nrgosub *g\n*g\nreturn\n").toArray
  encoding := .utf8

/-- The script at the return from the label that is called out of the handler. -/
def calledOut : Machine :=
  stepped^[10] (fresh pausedLoop { variableSlots := 1, globalBorder := some 1 } (.folder {}))

/-- The game in front of the return is saved to a slot, and loaded again after the return. -/
def reloadedSlot : Machine :=
  ((calledOut.serve (.saveSlot 1 calledOut.pc none)).2.stepped.serve (.loadSlot 1)).2

/-- The frames of the call, of the loop and of the handler are put back out of the slot, and the
return closes them all again. -/
theorem wellShaped_reloadedSlot :
    reloadedSlot.nesting.WellShaped ∧ reloadedSlot.nesting.depth = 3 ∧
      ∃ above handler lower bookmark,
        reloadedSlot.nesting.frames.tail = above ++ .call handler :: lower ∧
          handler.bookmark = some bookmark ∧ reloadedSlot.stepped.nesting.frames = lower ∧
          reloadedSlot.stepped.pc = bookmark.addr := by
  have hload : load pausedLoop { variableSlots := 1, globalBorder := some 1 } (.folder {}) =
      .ok (fresh pausedLoop { variableSlots := 1, globalBorder := some 1 } (.folder {})) := rfl
  have hcalled : Replayed pausedLoop calledOut := (Replayed.load hload).steps 10 (by decide +kernel)
  obtain ⟨hloads, hwritten, hthree, hreturns, hhead⟩ :
      HostCall.step.loads (calledOut.serve (.saveSlot 1 calledOut.pc none)).2 = false ∧
      (calledOut.serve (.saveSlot 1 calledOut.pc none)).2.stepped.readSaved? (Save.fileName 1) =
        some (calledOut.snapshot calledOut.pc none).toBytes ∧
      reloadedSlot.nesting.depth = 3 ∧ reloadedSlot.returnsNext = true ∧
      reloadedSlot.nesting.frames =
        .call (.ofBookmark .rgosub { addr := 15, narrow := false, stop := .clickWait }) ::
          reloadedSlot.nesting.frames.tail := by decide +kernel
  have hsaved : Replayed pausedLoop (calledOut.serve (.saveSlot 1 calledOut.pc none)).2 :=
    hcalled.serve _ (fun _ => hcalled) fun _ hoffers => absurd hoffers id
  have hreloaded : Replayed pausedLoop reloadedSlot := by
    refine (hsaved.stepped hloads).serve _ (fun _ => hcalled) ?_
    rintro save ⟨bytes, hread, hsave⟩
    cases hwritten.symm.trans hread
    exact ⟨calledOut.pc, none, .inr hsave⟩
  obtain ⟨hshape, hreturn⟩ := wellShaped_returns_to_handler hreloaded
  refine ⟨hshape, hthree, ?_⟩
  obtain ⟨above, handler, lower, bookmark, hrest, -, -, hmark, -, hlower, hpc, -⟩ :=
    hreturn _ _ hreturns hhead rfl
  exact ⟨above, handler, lower, bookmark, hrest, hmark, hlower, hpc⟩

end Machine

end NovelScript
