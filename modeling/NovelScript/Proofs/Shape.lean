import NovelScript.Proofs.Nesting

/-!
# The shape of what is open

Each kind of frame holds what a return from it needs. A handler of text holds a bookmark at its
return address, and so does a call out of a handler; that call also holds the same bookmark as the
handler that is innermost beneath it, so that its return, which looks for that handler again, goes
back to the text that the handler interrupted. No change but a saved game breaks this shape.
-/

namespace NovelScript

/-- A call has what its kind asks for. -/
def CallFrame.Shaped (frame : CallFrame) : Prop :=
  match frame.kind with
  | .gosub => frame.params = none ∧ frame.bookmark = none
  | .subroutine => frame.params.isSome = true
  | .textGosub | .pretext | .rgosub =>
    ∃ bookmark, frame.bookmark = some bookmark ∧ bookmark.addr = frame.returnTo

/-- A call has what its kind asks for, and a loop moves an integer. -/
def Frame.Shaped : Frame → Prop
  | call frame => frame.Shaped
  | loop frame => frame.step ≠ 0 ∧ frame.counter.isStr = false

/-- A handler of a pause has a bookmark. -/
theorem CallFrame.Shaped.textGosub {frame : CallFrame} (h : frame.Shaped)
    (hkind : frame.kind = .textGosub) :
    ∃ bookmark, frame.bookmark = some bookmark ∧ bookmark.addr = frame.returnTo := by
  rwa [Shaped, hkind] at h

private theorem CallFrame.shaped_ofBookmark {kind : CallKind} (bookmark : Bookmark)
    (hkind : kind = .textGosub ∨ kind = .pretext ∨ kind = .rgosub) :
    (ofBookmark kind bookmark).Shaped := by
  rcases hkind with rfl | rfl | rfl <;> exact ⟨bookmark, rfl, rfl⟩

/-- A relation between frames that goes from calls to calls of the same kind and from loops to
loops, that keeps their shape, and that takes equal bookmarks to equal ones. -/
structure Frame.Carries (R : Frame → Frame → Prop) : Prop where
  /-- Calls go to calls of the same kind, and loops to loops. -/
  kinds : ∀ {frame next}, R frame next →
    (∃ call call', frame = .call call ∧ next = .call call' ∧ call'.kind = call.kind) ∨
      ∃ loop loop', frame = .loop loop ∧ next = .loop loop'
  /-- The shape is kept. -/
  shaped : ∀ {frame next}, R frame next → frame.Shaped → next.Shaped
  /-- Equal bookmarks go to equal ones. -/
  bookmarks : ∀ {call call' handler handler'}, R (.call call) (.call call') →
    R (.call handler) (.call handler') → handler.bookmark = call.bookmark →
      handler'.bookmark = call'.bookmark

/-- Reading operands is such a relation. -/
theorem Frame.carries_readOn : Carries ReadOn where
  kinds := by
    intro frame next h
    cases h with
    | same =>
      cases frame with
      | call call => exact .inl ⟨call, call, rfl, rfl, rfl⟩
      | loop loop => exact .inr ⟨loop, loop, rfl, rfl⟩
    | operands _ _ _ => exact .inl ⟨_, _, rfl, rfl, rfl⟩
  shaped := by
    intro frame next h hframe
    cases h with
    | same => exact hframe
    | operands hkind _ _ =>
      simp only [Frame.Shaped, CallFrame.Shaped, hkind]
      rfl
  bookmarks := by
    intro call call' handler handler' hcall hhandler hsame
    obtain ⟨_, ⟨⟩, -, -, hmark⟩ := hcall.call
    obtain ⟨_, ⟨⟩, -, -, hmark'⟩ := hhandler.call
    rw [hmark, hmark', hsame]

namespace Nesting

open NovelScript.Frame (ReadOn)

variable {size : Nat} {store : Store} {way : Direction} {nesting next : Nesting}
  {frames frames' : List Frame}

/-- The innermost handler of a pause in a list of frames. -/
def handlerIn (frames : List Frame) : Option CallFrame :=
  frames.findSome? (Frame.callOf? .textGosub)

private theorem handlerIn_cons (frame : Frame) (frames : List Frame) :
    handlerIn (frame :: frames) = (frame.callOf? .textGosub).or (handlerIn frames) := by
  rw [handlerIn, List.findSome?_cons]
  cases frame.callOf? .textGosub <;> rfl

/-- Where all handlers have bookmarks, the innermost bookmark is that of the innermost handler. -/
theorem bookmarkIn_eq (h : ∀ frame ∈ frames, frame.Shaped) :
    bookmarkIn frames = (handlerIn frames).bind CallFrame.bookmark := by
  induction frames with
  | nil => rfl
  | cons frame frames ih =>
    obtain ⟨hframe, hframes⟩ := List.forall_mem_cons.mp h
    cases hcall : frame.callOf? .textGosub with
    | none =>
      rw [handlerIn_cons, hcall, Option.none_or, ← ih hframes]
      simp [bookmarkIn, hcall]
    | some call =>
      obtain ⟨rfl, hkind⟩ := Frame.callOf?_eq_some hcall
      obtain ⟨bookmark, hbookmark, -⟩ := CallFrame.Shaped.textGosub hframe hkind
      simp [handlerIn_cons, bookmarkIn, hcall, hbookmark]

/-- The frames around the innermost handler. -/
theorem exists_of_handlerIn (nesting : Nesting) {handler : CallFrame}
    (h : handlerIn frames = some handler) :
    ∃ above lower, frames = above ++ .call handler :: lower ∧ handler.kind = .textGosub ∧
      (∀ frame ∈ above, frame.callOf? .textGosub = none) ∧
      (unwindHandler { nesting with frames }).frames = lower := by
  obtain ⟨above, frame, lower, rfl, hfound, habove⟩ := List.findSome?_eq_some_iff.mp h
  obtain ⟨rfl, hkind⟩ := Frame.callOf?_eq_some hfound
  refine ⟨above, lower, rfl, hkind, habove, ?_⟩
  have hinnermost : innermost? { nesting with frames := above ++ Frame.call handler :: lower }
      .textGosub = some handler := h
  have hdrop : (above ++ Frame.call handler :: lower).dropWhile
      (fun f => (f.callOf? .textGosub).isNone) = Frame.call handler :: lower := by
    rw [List.dropWhile_append_of_pos fun frame hframe => by simp [habove frame hframe]]
    exact List.dropWhile_cons_of_neg (by simp [hfound])
  rw [unwindHandler, hinnermost, if_pos Option.isSome_some, hdrop, List.tail_cons]

/-- A handler is found at the same place among related frames. -/
theorem handlerIn_carry {R : Frame → Frame → Prop} (hR : Frame.Carries R)
    (h : List.Forall₂ R frames frames') {handler : CallFrame}
    (hhandler : handlerIn frames = some handler) :
    ∃ handler', handlerIn frames' = some handler' ∧ R (.call handler) (.call handler') := by
  induction h with
  | nil => cases hhandler
  | cons hframe _ ih =>
    rw [handlerIn_cons] at hhandler ⊢
    obtain ⟨call, call', rfl, rfl, hkind⟩ | ⟨loop, loop', rfl, rfl⟩ := hR.kinds hframe
    · by_cases htext : call.kind = .textGosub
      · have hcall : (Frame.call call).callOf? .textGosub = some call := if_pos htext
        have hcall' : (Frame.call call').callOf? .textGosub = some call' :=
          if_pos (hkind.trans htext)
        rw [hcall] at hhandler
        cases hhandler
        exact ⟨call', by rw [hcall']; rfl, hframe⟩
      · have hcall : (Frame.call call).callOf? .textGosub = none := if_neg htext
        have hcall' : (Frame.call call').callOf? .textGosub = none := if_neg (hkind ▸ htext)
        rw [hcall, Option.none_or] at hhandler
        rw [hcall', Option.none_or]
        exact ih hhandler
    · exact ih hhandler

/-- A frame of the one list answers each frame of the other. -/
theorem exists_of_forall₂_mem {R : Frame → Frame → Prop} (h : List.Forall₂ R frames frames')
    {frame' : Frame} (hmem : frame' ∈ frames') : ∃ frame ∈ frames, R frame frame' := by
  induction h with
  | nil => cases hmem
  | cons hframe _ ih =>
    rcases List.mem_cons.mp hmem with rfl | hmem
    · exact ⟨_, List.mem_cons_self, hframe⟩
    · obtain ⟨frame, hfound, hrelated⟩ := ih hmem
      exact ⟨frame, List.mem_cons_of_mem _ hfound, hrelated⟩

/-- The shape of what is open. -/
structure WellShaped (nesting : Nesting) : Prop where
  /-- Every frame has what its kind asks for. -/
  frames : ∀ frame ∈ nesting.frames, frame.Shaped
  /-- Beneath every call out of a handler there is a handler, and the innermost one has the same
  bookmark. -/
  anchored : ∀ call rest, .call call :: rest <:+ nesting.frames → call.kind = .rgosub →
    ∃ handler, handlerIn rest = some handler ∧ handler.bookmark = call.bookmark

namespace WellShaped

/-- A frame is opened. -/
theorem push (h : nesting.WellShaped) {frame : Frame} (hframe : frame.Shaped)
    (hanchored : ∀ call, frame = .call call → call.kind = .rgosub →
      ∃ handler, handlerIn nesting.frames = some handler ∧ handler.bookmark = call.bookmark) :
    WellShaped { nesting with frames := frame :: nesting.frames } := by
  constructor
  · exact List.forall_mem_cons.mpr ⟨hframe, h.frames⟩
  · intro call rest hsuffix hkind
    rcases List.suffix_cons_iff.mp hsuffix with heq | hsuffix
    · cases heq
      exact hanchored call rfl hkind
    · exact h.anchored call rest hsuffix hkind

/-- Frames are closed. -/
theorem close (h : nesting.WellShaped) (hframes : frames <:+ nesting.frames) :
    WellShaped { nesting with frames } :=
  ⟨fun frame hframe => h.frames frame (hframes.subset hframe),
    fun call rest hsuffix => h.anchored call rest (hsuffix.trans hframes)⟩

/-- The innermost loop is finished. -/
theorem finish (h : nesting.WellShaped) (hfinish : nesting.finishLoop = .ok next) :
    next.WellShaped := by
  obtain ⟨_ | ⟨⟨frame⟩ | ⟨loop⟩, frames⟩, cap⟩ := nesting
  · cases hfinish
  · cases hfinish
  · cases hfinish
    have hrest : WellShaped { frames, cap } := h.close (List.suffix_cons _ _)
    have hloop : (Frame.loop loop).Shaped := h.frames _ List.mem_cons_self
    exact hrest.push hloop (by rintro _ ⟨⟩)

/-- Frames that are related to well-shaped ones are well-shaped. -/
theorem carry {R : Frame → Frame → Prop} (hR : Frame.Carries R) (h : nesting.WellShaped)
    (hframes : List.Forall₂ R nesting.frames frames) : WellShaped { nesting with frames } := by
  constructor
  · intro frame hframe
    obtain ⟨before, hbefore, hrelated⟩ := exists_of_forall₂_mem hframes hframe
    exact hR.shaped hrelated (h.frames before hbefore)
  · intro call' rest' hsuffix hkind
    -- The call stands at the same place as before, over related frames.
    have hdrop := List.suffix_iff_eq_drop.mp hsuffix
    have hbefore := List.forall₂_drop (frames.length - (Frame.call call' :: rest').length) hframes
    rw [← hdrop] at hbefore
    obtain ⟨frame, rest, hframe, hrest, heq⟩ := List.forall₂_cons_right_iff.mp hbefore
    obtain ⟨call, _, rfl, ⟨⟩, hsame⟩ | ⟨_, _, -, ⟨⟩⟩ := hR.kinds hframe
    have hsuffix' : Frame.call call :: rest <:+ nesting.frames := heq ▸ List.drop_suffix _ _
    obtain ⟨handler, hhandler, hmark⟩ := h.anchored call rest hsuffix' (hsame.symm.trans hkind)
    obtain ⟨handler', hhandler', hrelated⟩ := handlerIn_carry hR hrest hhandler
    exact ⟨handler', hhandler', hR.bookmarks hframe hrelated hmark⟩

/-- No change but a saved game breaks the shape. -/
theorem change (h : nesting.WellShaped) (hway : way ≠ .anew)
    (hchange : Change size store nesting way next) : next.WellShaped := by
  cases hchange with
  | call => exact h.push ⟨rfl, rfl⟩ (by rintro _ ⟨⟩ ⟨⟩)
  | command => exact h.push rfl (by rintro _ ⟨⟩ ⟨⟩)
  | handler hkind hbookmark =>
    refine h.push (CallFrame.shaped_ofBookmark _ (hkind.imp_right .inl)) ?_
    rintro _ ⟨⟩ hrgosub
    rcases hkind with rfl | rfl <;> cases hrgosub
  | handlerCall hbookmark =>
    refine h.push (CallFrame.shaped_ofBookmark _ (.inr (.inr rfl))) ?_
    rintro _ ⟨⟩ _
    have hfound : bookmarkIn nesting.frames = some _ := hbookmark
    rw [bookmarkIn_eq h.frames] at hfound
    exact Option.bind_eq_some_iff.mp hfound
  | loop hbody hstep hcounter hnumber hread => exact h.push ⟨hstep, hcounter⟩ (by rintro _ ⟨⟩)
  | finish hfinish => exact h.finish hfinish
  | params hparams hahead haddr => exact h.carry Frame.carries_readOn (readOn_setParamsIn hparams hahead)
  | close hframes => exact h.close hframes
  | resume => exact absurd rfl hway

end WellShaped

end Nesting

end NovelScript
