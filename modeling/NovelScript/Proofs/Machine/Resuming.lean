import NovelScript.Proofs.Machine.Position
import NovelScript.Proofs.Machine.Reachable
import NovelScript.Proofs.Store.Restore

/-!
# A snapshot can be resumed

A snapshot holds positions in place of addresses, and local variables in three parts. A machine that
runs the same script finds all the positions again and puts the variables together, whatever its own
game was and however many variable slots it has from the start.
-/

namespace NovelScript.Machine

variable {s t : Machine}

/-! ## Frames -/

/-- What may be absent is found again if it is found when it is there. -/
theorem ifPresent_map {α β : Type} {f : β → Except Fault α} {g : α → β} {a? : Option α}
    (h : ∀ a ∈ a?, f (g a) = .ok a) : ifPresent f (a?.map g) = .ok a? := by
  cases a? with
  | none => rfl
  | some a =>
    show (f (g a) >>= fun b => pure (some b)) = _
    rw [h a rfl]
    rfl

section SameScript

variable (h : SameScript s t) (hsize : s.script.size < 2 ^ 31)
include h hsize

private theorem bookmarkOf_savedBookmark {bookmark : Bookmark}
    (hwithin : bookmark.addr ≤ s.script.size) :
    t.bookmarkOf (s.savedBookmark bookmark) = .ok bookmark := by
  rw [bookmarkOf, savedBookmark, addressOf_positionOf h hsize hwithin]
  rfl

/-- A saved frame is found again. -/
theorem frameOf_savedFrame {frame : Frame} (hwithin : frame.Within s.script.size) :
    t.frameOf (s.savedFrame frame) = .ok frame := by
  cases frame with
  | loop frame =>
    rw [savedFrame, frameOf, addressOf_positionOf h hsize hwithin]
    rfl
  | call frame =>
    obtain ⟨hreturn, hparams, hbookmark⟩ := hwithin
    have hbookmark' := ifPresent_map fun bookmark hmem =>
      bookmarkOf_savedBookmark h hsize (hbookmark bookmark hmem)
    have hparams' := ifPresent_map fun addr hmem =>
      addressOf_positionOf h hsize (hparams addr hmem)
    rw [savedFrame, frameOf, CallKind.ofCode?_code]
    dsimp only
    rw [hbookmark', hparams', addressOf_positionOf h hsize hreturn]
    rfl

/-- Saved frames are found again. -/
theorem framesOf_savedFrames {frames : List Frame}
    (hwithin : ∀ frame ∈ frames, frame.Within s.script.size) :
    t.framesOf (frames.map s.savedFrame) = .ok frames := by
  induction frames with
  | nil => rfl
  | cons frame frames ih =>
    obtain ⟨hframe, hframes⟩ := List.forall_mem_cons.mp hwithin
    rw [List.map_cons, framesOf, frameOf_savedFrame h hsize hframe, ih hframes]
    rfl

end SameScript

/-! ## Snapshots -/

/-- Machines for the same script have the same labels, if both can be reached. -/
theorem sameScript_of_reachable (hs : Reachable s) (ht : Reachable t)
    (hscript : t.script = s.script) : SameScript s t where
  script := hscript
  labels := hs.inside.labels
  labels' := hscript ▸ ht.inside.labels

/-- The machine `t'` goes on at `addr` with the game of `s`, and is `t` in all that does not belong
to a game. -/
structure Resumes (s t : Machine) (addr : Nat) (t' : Machine) : Prop where
  /-- It goes on at the address. -/
  pc : t'.pc = addr
  /-- It is in the middle of text if the saved game was. -/
  inText : t'.inText = s.inText
  /-- Narrow mode is that of the saved game. -/
  narrow : t'.narrow = s.narrow
  /-- All calls and loops of the saved game are open, in their order. -/
  frames : t'.nesting.frames = s.nesting.frames
  /-- Local slots have the integers and strings of the saved game. -/
  locals : ∀ n, s.store.border ≤ n → (t'.store.slot n).num = (s.store.slot n).num ∧
    (t'.store.slot n).str = (s.store.slot n).str
  /-- The arrays are those of the saved game. -/
  grids : t'.store.grids = s.store.grids
  /-- Global slots are left alone. -/
  globals : ∀ n, n < t.store.border → t'.store.slot n = t.store.slot n
  /-- Bounds are left alone. -/
  limits : ∀ n, (t'.store.slot n).limit = (t.store.slot n).limit
  /-- So is the border. -/
  border : t'.store.border = t.store.border
  /-- So is everything else: aliases, commands, handlers, logs, marks and settings. -/
  others : t' = { t with
    store := t'.store
    nesting := { t.nesting with frames := t'.nesting.frames }
    pc := t'.pc
    inText := t'.inText
    narrow := t'.narrow
    pendingHost := none
    ended := false }

/-- **A snapshot can be resumed.** Take any machine that can be reached, any address of its script
and any machine that runs the same script with the same border, whatever its number of fixed slots,
without bounds on its local slots. The snapshot can be restored there, and the game goes on as it
was. -/
theorem restore_snapshot (hs : Reachable s) (ht : Reachable t) (hscript : t.script = s.script)
    (hsize : s.script.size < 2 ^ 31) (hborder : t.store.border = s.store.border)
    (hfree : ∀ n, t.store.border ≤ n → (t.store.slot n).limit = none)
    {addr : Nat} (haddr : addr ≤ s.script.size) (description : Option Bytes) :
    ∃ t', t.restore (s.snapshot addr description) = .ok t' ∧ Resumes s t addr t' := by
  have hsame := sameScript_of_reachable hs ht hscript
  have hframes : t.framesOf (s.nesting.frames.reverse.map s.savedFrame) =
      .ok s.nesting.frames.reverse :=
    framesOf_savedFrames hsame hsize fun frame hframe =>
      hs.inside.nesting frame (List.mem_reverse.mp hframe)
  have hpc := addressOf_positionOf hsame hsize haddr
  have hrestore : t.restore (s.snapshot addr description) = .ok { t with
      store := (SavedVariables.ofStore s.store).restore t.store
      nesting := { t.nesting with frames := s.nesting.frames.reverse.reverse }
      pc := addr
      inText := s.inText
      narrow := s.narrow
      pendingHost := none
      ended := false } := by
    rw [restore]
    show (t.framesOf (s.nesting.frames.reverse.map s.savedFrame) >>= _) = _
    rw [hframes]
    show (t.addressOf (s.positionOf addr) >>= _) = _
    rw [hpc]
    rfl
  have hlocals : ∀ n, s.store.border ≤ n →
      (((SavedVariables.ofStore s.store).restore t.store).slot n).num = (s.store.slot n).num ∧
        (((SavedVariables.ofStore s.store).restore t.store).slot n).str =
          (s.store.slot n).str := by
    intro n hn
    rw [SavedVariables.slot_restore_local hs.wellFormed ht.wellFormed hborder hn
      (hfree n (hborder ▸ hn))]
    exact ⟨rfl, rfl⟩
  refine ⟨_, hrestore, ?_⟩
  exact {
    pc := rfl
    inText := rfl
    narrow := rfl
    frames := List.reverse_reverse _
    locals := hlocals
    grids := SavedVariables.grids_restore hs.wellFormed _
    globals := fun _ => SavedVariables.slot_restore_global hs.wellFormed ht.wellFormed
    limits := SavedVariables.limit_restore hs.wellFormed ht.wellFormed
    border := SavedVariables.border_restore _ _
    others := rfl }

/-- A script that writes local variables and an array, and then calls a label. -/
def writeAndCall : Script where
  bytes := (Bytes.ofText "dim ?0[2]\nmov %3,7:mov $1,\"ab\"\ngosub *a\n*a\nreturn\n").toArray
  encoding := .utf8

/-- The script before it is executed, with some number of fixed slots and one global slot. -/
def beforeCall (variableSlots : Nat) : Machine :=
  fresh writeAndCall { variableSlots, globalBorder := some 1 } .absent

/-- The script in the middle of the call. -/
def duringCall (variableSlots : Nat) : Machine :=
  ((beforeCall variableSlots).serveAll (List.replicate 6 .step)).2

private theorem reachable_beforeCall (variableSlots : Nat) : Reachable (beforeCall variableSlots) :=
  .load (show load writeAndCall { variableSlots, globalBorder := some 1 } .absent =
    .ok (beforeCall variableSlots) from rfl)

/-- A snapshot in the middle of a call, with a slot above the fixed ones, is resumed by a machine
that has this slot among the fixed ones. -/
theorem restore_snapshot_duringCall :
    Reachable (duringCall 2) ∧ Reachable (beforeCall 8) ∧
      (duringCall 2).nesting.depth = 1 ∧ (duringCall 2).store.int 3 = 7 ∧
      ∃ t', (beforeCall 8).restore ((duringCall 2).snapshot 34 none) = .ok t' ∧
        Resumes (duringCall 2) (beforeCall 8) 34 t' := by
  have hs : Reachable (duringCall 2) := (reachable_beforeCall 2).serveAll _
  have ht : Reachable (beforeCall 8) := reachable_beforeCall 8
  have hfree : ∀ n, (beforeCall 8).store.border ≤ n →
      ((beforeCall 8).store.slot n).limit = none := by
    intro n _
    rw [show (beforeCall 8).store = Store.blank 8 1 from rfl, Store.slot_blank]
  refine ⟨hs, ht, by decide +kernel, by decide +kernel, ?_⟩
  exact restore_snapshot hs ht (by decide +kernel) (by decide +kernel) (by decide +kernel) hfree
    (by decide +kernel) none

end NovelScript.Machine
