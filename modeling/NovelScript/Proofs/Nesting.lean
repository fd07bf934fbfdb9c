import Mathlib.Data.List.Forall2
import NovelScript.Proofs.Machine.Evolution

/-!
# What stays beneath an open call

Calls, loops and handlers share one stack, and reading operands reaches below the innermost frame.
Even so, as long as a call is open the frames beneath it stay what they are, except that commands of
the script read on in their operands. A call out of a handler keeps the bookmark of that handler,
which is what its return goes by.
-/

namespace NovelScript

/-- The second frame is the first one, or the same command of the script further on in its
operands. -/
inductive Frame.ReadOn : Frame → Frame → Prop where
  /-- Nothing has changed. -/
  | same (frame : Frame) : ReadOn frame frame
  /-- Operands were read. -/
  | operands {call : CallFrame} {params addr : Nat} (hkind : call.kind = .subroutine)
      (hparams : call.params = some params) (hahead : params ≤ addr) :
    ReadOn (.call call) (.call { call with params := some addr })

namespace Frame.ReadOn

private theorem trans {first second third : Frame} (h : ReadOn first second)
    (h' : ReadOn second third) : ReadOn first third := by
  cases h with
  | same => exact h'
  | operands hkind hparams hahead =>
    cases h' with
    | same => exact .operands hkind hparams hahead
    | operands _ hparams' hahead' =>
      cases hparams'
      exact .operands hkind hparams (hahead.trans hahead')

/-- A call that may have read on is still the same call in all else. -/
theorem call {frame : CallFrame} {next : Frame} (h : ReadOn (.call frame) next) :
    ∃ call, next = .call call ∧ call.kind = frame.kind ∧ call.returnTo = frame.returnTo ∧
      call.bookmark = frame.bookmark := by
  cases h with
  | same => exact ⟨frame, rfl, rfl, rfl, rfl⟩
  | operands _ _ _ => exact ⟨_, rfl, rfl, rfl, rfl⟩

/-- Only commands of the script read on. -/
theorem eq_of_kind_ne {frame : Frame} {call : CallFrame} (h : ReadOn frame (.call call))
    (hkind : call.kind ≠ .subroutine) : frame = .call call := by
  cases h with
  | same => rfl
  | operands hsubroutine _ _ => exact absurd hsubroutine hkind

private theorem callOf?_textGosub {frame next : Frame} (h : ReadOn frame next) :
    next.callOf? .textGosub = frame.callOf? .textGosub := by
  cases h with
  | same => rfl
  | operands hkind _ _ => simp [callOf?, hkind]

end Frame.ReadOn

namespace Nesting

open NovelScript.Frame (ReadOn)

/-- The bookmark of the innermost handler of a pause in a list of frames. -/
def bookmarkIn (frames : List Frame) : Option Bookmark :=
  frames.findSome? fun frame => (frame.callOf? .textGosub).bind CallFrame.bookmark

variable {size : Nat} {store : Store} {way : Direction} {nesting next : Nesting}
  {base frames frames' : List Frame}

private theorem readOn_refl (frames : List Frame) : List.Forall₂ ReadOn frames frames :=
  List.forall₂_same.mpr fun frame _ => .same frame

private theorem readOn_trans {frames'' : List Frame} (h : List.Forall₂ ReadOn frames frames')
    (h' : List.Forall₂ ReadOn frames' frames'') : List.Forall₂ ReadOn frames frames'' := by
  induction h generalizing frames'' with
  | nil => exact h'
  | cons hframe _ ih =>
    cases h' with
    | cons hframe' hframes' => exact .cons (hframe.trans hframe') (ih hframes')

/-- Reading operands changes no bookmark. -/
theorem bookmarkIn_readOn (h : List.Forall₂ ReadOn frames frames') :
    bookmarkIn frames' = bookmarkIn frames := by
  induction h with
  | nil => rfl
  | cons hframe _ ih =>
    unfold bookmarkIn at ih ⊢
    rw [List.findSome?_cons, List.findSome?_cons, hframe.callOf?_textGosub, ih]

/-- Reading an operand moves the innermost command of the script on, and nothing else. -/
theorem readOn_setParamsIn {params addr : Nat}
    (h : (frames.findSome? (Frame.callOf? .subroutine)).bind CallFrame.params = some params)
    (hahead : params ≤ addr) : List.Forall₂ ReadOn frames (setParamsIn addr frames) := by
  induction frames with
  | nil => exact .nil
  | cons frame frames ih =>
    cases frame with
    | loop frame => exact .cons (.same _) (ih h)
    | call call =>
      rw [setParamsIn]
      by_cases hkind : call.kind = .subroutine
      · rw [if_pos hkind]
        have hparams : call.params = some params := by
          simpa [List.findSome?_cons, Frame.callOf?, hkind] using h
        exact .cons (.operands hkind hparams hahead) (readOn_refl frames)
      · rw [if_neg hkind]
        have hrest : (frames.findSome? (Frame.callOf? .subroutine)).bind CallFrame.params =
            some params := by
          simpa [List.findSome?_cons, Frame.callOf?, hkind] using h
        exact .cons (.same _) (ih hrest)

/-- Frames beneath which nothing was closed: they are still there, perhaps further on in their
operands, and every call out of a handler above them has the bookmark of the handler that is
innermost beneath it. -/
structure Beneath (base : List Frame) (nesting : Nesting) : Prop where
  /-- The frames are still there. -/
  kept : ∃ lower, lower <:+ nesting.frames ∧ List.Forall₂ ReadOn base lower
  /-- Calls out of a handler above them go back to that handler. -/
  anchored : ∀ call rest, .call call :: rest <:+ nesting.frames → base.length ≤ rest.length →
    call.kind = .rgosub → ∃ bookmark, call.bookmark = some bookmark ∧
      bookmarkIn rest = some bookmark

namespace Beneath

/-- Frames that nothing was opened on are beneath themselves. -/
theorem refl (nesting : Nesting) : Beneath nesting.frames nesting := by
  constructor
  · exact ⟨nesting.frames, List.suffix_rfl, readOn_refl _⟩
  · intro call rest hsuffix hlength _
    have hle := hsuffix.length_le
    rw [List.length_cons] at hle
    omega

/-- A frame is opened. -/
theorem push (h : Beneath base nesting) {frame : Frame}
    (hframe : ∀ call, frame = .call call → call.kind = .rgosub →
      ∃ bookmark, call.bookmark = some bookmark ∧ nesting.bookmark? = some bookmark) :
    Beneath base { nesting with frames := frame :: nesting.frames } := by
  obtain ⟨lower, hlower, hread⟩ := h.kept
  constructor
  · exact ⟨lower, hlower.trans (List.suffix_cons _ _), hread⟩
  · intro call rest hsuffix hlength hkind
    rcases List.suffix_cons_iff.mp hsuffix with heq | hsuffix
    · cases heq
      exact hframe call rfl hkind
    · exact h.anchored call rest hsuffix hlength hkind

/-- Operands are read. -/
theorem readOn (h : Beneath base nesting) (hframes : List.Forall₂ ReadOn nesting.frames frames) :
    Beneath base { nesting with frames } := by
  constructor
  · obtain ⟨lower, hlower, hread⟩ := h.kept
    have hdrop := List.suffix_iff_eq_drop.mp hlower
    have hstill := List.forall₂_drop (nesting.frames.length - lower.length) hframes
    rw [← hdrop] at hstill
    exact ⟨_, List.drop_suffix _ _, readOn_trans hread hstill⟩
  · intro call rest hsuffix hlength hkind
    -- The call stands at the same place as before, over the same frames as before.
    have hdrop := List.suffix_iff_eq_drop.mp hsuffix
    have hbefore := List.forall₂_drop (frames.length - (Frame.call call :: rest).length) hframes
    rw [← hdrop] at hbefore
    obtain ⟨frame, before, hframe, hrest, heq⟩ := List.forall₂_cons_right_iff.mp hbefore
    have hsame := hframe.eq_of_kind_ne (by rw [hkind]; decide)
    subst hsame
    have hsuffix' : Frame.call call :: before <:+ nesting.frames := heq ▸ List.drop_suffix _ _
    have hlength' : base.length ≤ before.length := hrest.length_eq ▸ hlength
    rw [bookmarkIn_readOn hrest]
    exact h.anchored call before hsuffix' hlength' hkind

/-- The innermost loop is finished. It is above the frames, if those begin with a call. -/
theorem finish (h : Beneath base nesting) {call : CallFrame} {rest : List Frame}
    (hbase : base = .call call :: rest) (hfinish : nesting.finishLoop = .ok next) :
    Beneath base next := by
  obtain ⟨_ | ⟨⟨frame⟩ | ⟨loop⟩, frames⟩, cap⟩ := nesting
  · cases hfinish
  · cases hfinish
  · cases hfinish
    constructor
    · obtain ⟨lower, hlower, hread⟩ := h.kept
      rcases List.suffix_cons_iff.mp hlower with heq | hlower
      · rw [heq, hbase] at hread
        cases hread with
        | cons hhead _ => cases hhead
      · exact ⟨lower, hlower.trans (List.suffix_cons _ _), hread⟩
    · intro call rest hsuffix hlength hkind
      rcases List.suffix_cons_iff.mp hsuffix with heq | hsuffix
      · cases heq
      · exact h.anchored call rest (hsuffix.trans (List.suffix_cons _ _)) hlength hkind

/-- Frames are closed, but not so many. -/
theorem close (h : Beneath base nesting) (hframes : frames <:+ nesting.frames)
    (hdepth : base.length ≤ frames.length) : Beneath base { nesting with frames } := by
  obtain ⟨lower, hlower, hread⟩ := h.kept
  constructor
  · refine ⟨lower, ?_, hread⟩
    exact List.suffix_of_suffix_length_le hlower hframes (hread.length_eq ▸ hdepth)
  · intro call rest hsuffix hlength hkind
    exact h.anchored call rest (hsuffix.trans hframes) hlength hkind

/-- No change but a saved game reaches the frames, as long as they are not closed. -/
theorem change (h : Beneath base nesting) {call : CallFrame} {rest : List Frame}
    (hbase : base = .call call :: rest) (hchange : Change size store nesting way next)
    (hway : way ≠ .anew) (hdepth : way = .outward → base.length ≤ next.depth) :
    Beneath base next := by
  cases hchange with
  | call | command => exact h.push (by rintro _ ⟨⟩ ⟨⟩)
  | handler hkind hbookmark =>
    refine h.push ?_
    rintro _ ⟨⟩ hrgosub
    rcases hkind with rfl | rfl <;> cases hrgosub
  | handlerCall hbookmark =>
    refine h.push ?_
    rintro _ ⟨⟩ _
    exact ⟨_, rfl, hbookmark⟩
  | loop => exact h.push (by rintro _ ⟨⟩)
  | finish hfinish => exact h.finish hbase hfinish
  | params hparams hahead haddr => exact h.readOn (readOn_setParamsIn hparams hahead)
  | close hframes => exact h.close hframes (hdepth rfl)
  | resume => exact absurd rfl hway

end Beneath

/-- Outward nothing is opened. -/
theorem Change.depth_le (h : Change size store nesting way next) (hway : way = .outward) :
    next.depth ≤ nesting.depth := by
  cases h with
  | call | command | handler | handlerCall | loop | resume => cases hway
  | finish hfinish =>
    obtain ⟨_ | ⟨⟨frame⟩ | ⟨loop⟩, frames⟩, cap⟩ := nesting
    · cases hfinish
    · cases hfinish
    · cases hfinish
      exact Nat.le_refl _
  | params hparams hahead haddr =>
    have hlength := (readOn_setParamsIn hparams hahead).length_eq
    exact Nat.le_of_eq hlength.symm
  | close hframes => exact hframes.length_le

/-- The innermost handler has the bookmark, if it has one at all. -/
theorem dropWhile_of_bookmarkIn {bookmark : Bookmark} (h : bookmarkIn frames = some bookmark) :
    ∃ call lower, frames.dropWhile (fun f => (f.callOf? .textGosub).isNone) = .call call :: lower ∧
      call.kind = .textGosub ∧ ∀ mark, call.bookmark = some mark → mark = bookmark := by
  induction frames with
  | nil => cases h
  | cons frame frames ih =>
    cases hcall : frame.callOf? .textGosub with
    | none =>
      have hrest : bookmarkIn frames = some bookmark := by
        simpa [bookmarkIn, List.findSome?_cons, hcall] using h
      rw [List.dropWhile_cons_of_pos (by simp [hcall])]
      exact ih hrest
    | some call =>
      obtain ⟨rfl, hkind⟩ := Frame.callOf?_eq_some hcall
      refine ⟨call, frames, ?_, hkind, fun mark hmark => ?_⟩
      · rw [List.dropWhile_cons_of_neg (by simp [hcall])]
      · simpa [bookmarkIn, List.findSome?_cons, hcall, hmark] using h

/-- The return of a call out of a handler closes everything up to that handler. -/
theorem unwindHandler_of_bookmark? {bookmark : Bookmark} (h : nesting.bookmark? = some bookmark) :
    ∃ call lower, .call call :: lower <:+ nesting.frames ∧ call.kind = .textGosub ∧
      nesting.unwindHandler = { nesting with frames := lower } ∧
      ∀ mark, call.bookmark = some mark → mark = bookmark := by
  obtain ⟨call, lower, hdrop, hkind, hmark⟩ := dropWhile_of_bookmarkIn h
  have hsuffix : Frame.call call :: lower <:+ nesting.frames := hdrop ▸ List.dropWhile_suffix _
  have hinnermost : (nesting.innermost? .textGosub).isSome := by
    rw [innermost?, List.findSome?_isSome_iff]
    exact ⟨_, hsuffix.mem List.mem_cons_self, by simp [Frame.callOf?, hkind]⟩
  refine ⟨call, lower, hsuffix, hkind, ?_, hmark⟩
  rw [unwindHandler, if_pos hinnermost, hdrop, List.tail_cons]

end Nesting

/-- Along changes in one direction that load no game, frames beneath a call stay there as long as
they are not closed. -/
theorem Core.beneath_of_steps {way : Nesting.Direction} {core last : Core} {base : List Frame}
    {call : CallFrame} {rest : List Frame} (hbase : base = .call call :: rest)
    (h : Relation.ReflTransGen (Core.Step way) core last) (hway : way ≠ .anew)
    (hcore : Nesting.Beneath base core.nesting)
    (hdepth : way = .outward → base.length ≤ last.nesting.depth) :
    Nesting.Beneath base last.nesting := by
  induction h with
  | refl => exact hcore
  | tail _ hstep ih =>
    cases hstep with
    | nest hchange =>
      have hmiddle := ih fun hout => (hdepth hout).trans (hchange.depth_le hout)
      exact hmiddle.change hbase hchange hway hdepth
    | move | begin | pass | edit | count => exact ih hdepth

end NovelScript
