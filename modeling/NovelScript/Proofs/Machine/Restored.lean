import NovelScript.Proofs.Machine.Forgetting
import NovelScript.Proofs.Save.RoundTrip

/-!
# Loading, all or nothing

The file of a save slot may hold any bytes at all, and the script, its labels and the global border
may be others than those of the machine that wrote it. If the file is a save all of whose positions
are found in the script, the game goes on with what the save lists. Whatever is wrong with it
otherwise, the call fails and the machine is exactly as before.
-/

namespace NovelScript

private theorem CallKind.eq_code_of_ofCode? {code : UInt8} {kind : CallKind}
    (h : ofCode? code = some kind) : code = kind.code := by
  unfold ofCode? at h
  split at h
  all_goals
    cases h
    try exact UInt8.toNat_inj.mp ‹_›

namespace Machine

variable {m : Machine} {save : Save} {slot : Int32}

/-! ## Positions that are found -/

/-- A saved bookmark is found in the script. -/
structure FindsBookmark (m : Machine) (saved : SavedBookmark) (bookmark : Bookmark) : Prop where
  /-- Its position has this address. -/
  addr : m.addressOf saved.position = .ok bookmark.addr
  /-- Narrow mode is as saved. -/
  narrow : bookmark.narrow = saved.narrow
  /-- The pause is the saved one. -/
  stop : bookmark.stop = saved.stop

/-- A saved frame is found in the script, with all of its positions. -/
inductive FindsFrame (m : Machine) : SavedFrame → Frame → Prop where
  /-- A call of a known kind. -/
  | call {returnTo : SavedPosition} {params : Option SavedPosition}
      {bookmark : Option SavedBookmark} {call : CallFrame}
      (hreturn : m.addressOf returnTo = .ok call.returnTo)
      (hparams : Option.Rel (fun saved addr => m.addressOf saved = .ok addr) params call.params)
      (hbookmark : Option.Rel m.FindsBookmark bookmark call.bookmark) :
      FindsFrame m (.call call.kind.code returnTo params bookmark) (.call call)
  /-- A loop. -/
  | loop {counter : VariableRef} {bound step : Int32} {body : SavedPosition} {finished : Bool}
      {addr : Nat} (hbody : m.addressOf body = .ok addr) :
      FindsFrame m (.loop counter bound step body finished)
        (.loop { counter, bound, step, body := addr, finished })

/-- Every position of the save is found in the script. -/
structure FindsGame (m : Machine) (save : Save) : Prop where
  /-- Those of all frames, whose kinds are known. -/
  frames : ∃ frames, List.Forall₂ m.FindsFrame save.frames frames
  /-- The one where the game goes on. -/
  pc : ∃ addr, m.addressOf save.position = .ok addr

private theorem ifPresent_eq_ok_iff {α β : Type} {f : α → Except Fault β} {a? : Option α}
    {b? : Option β} : ifPresent f a? = .ok b? ↔ Option.Rel (fun a b => f a = .ok b) a? b? := by
  constructor
  · intro h
    cases a? with
    | none =>
      cases h
      exact .none
    | some a =>
      obtain ⟨b, hb, h⟩ := Action.exists_of_bind_eq_ok h
      cases h
      exact .some hb
  · intro h
    cases h with
    | none => rfl
    | some hb =>
      rw [ifPresent, hb]
      rfl

private theorem bookmarkOf_eq_ok_iff {saved : SavedBookmark} {bookmark : Bookmark} :
    m.bookmarkOf saved = .ok bookmark ↔ m.FindsBookmark saved bookmark := by
  constructor
  · intro h
    obtain ⟨addr, haddr, h⟩ := Action.exists_of_bind_eq_ok h
    cases h
    exact ⟨haddr, rfl, rfl⟩
  · rintro ⟨haddr, hnarrow, hstop⟩
    rw [bookmarkOf, haddr, ← hnarrow, ← hstop]
    rfl

/-- The frame of a saved frame is the one that is found. -/
theorem frameOf_eq_ok_iff {saved : SavedFrame} {frame : Frame} :
    m.frameOf saved = .ok frame ↔ m.FindsFrame saved frame := by
  constructor
  · intro h
    cases saved with
    | call code returnTo params bookmark =>
      rw [frameOf] at h
      split at h
      · cases h
      · next kind hkind =>
        obtain ⟨bookmark, hbookmark, h⟩ := Action.exists_of_bind_eq_ok h
        obtain ⟨params, hparams, h⟩ := Action.exists_of_bind_eq_ok h
        obtain ⟨returnTo, hreturn, h⟩ := Action.exists_of_bind_eq_ok h
        cases h
        obtain rfl := CallKind.eq_code_of_ofCode? hkind
        rw [ifPresent_eq_ok_iff] at hbookmark hparams
        simp only [bookmarkOf_eq_ok_iff] at hbookmark
        let call : CallFrame := { kind, returnTo, params, bookmark }
        exact (.call hreturn hparams hbookmark : m.FindsFrame _ (.call call))
    | loop counter bound step body finished =>
      obtain ⟨addr, haddr, h⟩ := Action.exists_of_bind_eq_ok h
      cases h
      exact .loop haddr
  · intro h
    cases h with
    | @call _ _ bookmark call hreturn hparams hbookmark =>
      have hmark : ifPresent m.bookmarkOf bookmark = .ok call.bookmark := by
        simpa only [ifPresent_eq_ok_iff, bookmarkOf_eq_ok_iff] using hbookmark
      rw [frameOf, CallKind.ofCode?_code]
      dsimp only
      rw [hmark, ifPresent_eq_ok_iff.mpr hparams, hreturn]
      rfl
    | loop hbody =>
      rw [frameOf, hbody]
      rfl

private theorem framesOf_eq_ok_iff_finds {saved : List SavedFrame} {frames : List Frame} :
    m.framesOf saved = .ok frames ↔ List.Forall₂ m.FindsFrame saved frames := by
  simp only [framesOf_eq_ok_iff, frameOf_eq_ok_iff]

/-! ## Going on with a save -/

/-- The machine `after` goes on with a saved game, in place of the one that `m` plays. -/
structure GoesOnWith (m : Machine) (save : Save) (after : Machine) : Prop where
  /-- There is a frame for each saved one, in the same order. -/
  frames : List.Forall₂ m.FindsFrame save.frames after.nesting.frames.reverse
  /-- The game goes on at the saved position. -/
  pc : m.addressOf save.position = .ok after.pc
  /-- Global slots are as before, also if the save lists them. -/
  globals : ∀ n < m.store.border, after.store.slot n = m.store.slot n
  /-- Local slots that the save lists have the integer and the string that it gives them. -/
  listed : ∀ n slot, m.store.border ≤ n → save.vars.slot? n = some slot →
    after.store.slot n = { num := slot.num, str := slot.str, limit := (m.store.slot n).limit }
  /-- All other local slots are zero, as far as their bounds admit it, and have no string. -/
  unlisted : ∀ n, m.store.border ≤ n → save.vars.slot? n = none →
    after.store.slot n = (m.store.slot n).cleared
  /-- The arrays are those that the save lists. -/
  grids : ∀ no, after.store.grids.get? no = save.vars.grid? no
  /-- The border of global slots is as before. -/
  border : after.store.border = m.store.border
  /-- No command of the host is pending, the script has not ended, and everything else is as
  before. -/
  others : after = { m with
    store := after.store
    nesting := { m.nesting with frames := after.nesting.frames }
    pc := after.pc
    inText := save.inText
    narrow := save.narrow
    pendingHost := none
    ended := false }

/-- Without bounds, a local slot that is not listed is as if nothing was ever written to it. -/
theorem GoesOnWith.blank {after : Machine} (h : m.GoesOnWith save after) {n : Nat}
    (hlocal : m.store.border ≤ n) (hnone : save.vars.slot? n = none)
    (hfree : (m.store.slot n).limit = none) : after.store.slot n = {} := by
  rw [h.unlisted n hlocal hnone, Slot.cleared, Slot.bounded, hfree]

/-- A file never gives a slot an empty string. -/
theorem str_ne_of_slot? {bytes : Bytes} (h : Save.ofBytes bytes = .ok save) {n : Nat}
    {slot : SavedSlot} (hslot : save.vars.slot? n = some slot) : slot.str ≠ some [] := by
  have hstorable := Save.storable_of_ofBytes h
  have hslots : slot.Storable := by
    have hmem : (n, slot) ∈ save.vars.entries := List.mem_reverse.mp (Table.mem_of_get? hslot)
    obtain hlocal | hover := List.mem_append.mp hmem
    · exact hstorable.locals slot (SavedVariables.slot_mem_of_mem_numbered hlocal)
    · exact (hstorable.overflow _ hover).2
  exact fun hempty => (hslots [] hempty).1 rfl

/-- A game that is found is restored as it is saved. -/
theorem goesOnWith_restore (hm : m.store.WellFormed) (hstores : m.Stores slot save)
    (hfound : m.FindsGame save) :
    ∃ after, m.restore save = .ok after ∧ m.GoesOnWith save after := by
  obtain ⟨bytes, -, hsave⟩ := hstores
  obtain ⟨⟨frames, hframes⟩, pc, hpc⟩ := hfound
  have hrestore : m.restore save = .ok { m with
      store := save.vars.restore m.store
      nesting := { m.nesting with frames := frames.reverse }
      pc
      inText := save.inText
      narrow := save.narrow
      pendingHost := none
      ended := false } := by
    rw [restore, framesOf_eq_ok_iff_finds.mpr hframes, hpc]
    rfl
  refine ⟨_, hrestore, ?_⟩
  exact {
    frames := by rwa [List.reverse_reverse]
    pc := hpc
    globals := fun n hn => SavedVariables.slot_restore_of_lt _ hm hn
    listed := fun n slot hn hslot =>
      SavedVariables.slot_restore_listed _ hm hn hslot (str_ne_of_slot? hsave hslot)
    unlisted := fun n hn hnone => SavedVariables.slot_restore_unlisted _ hm hn hnone
    grids := SavedVariables.get?_grids_restore _ _
    border := SavedVariables.border_restore _ _
    others := rfl }

/-- Nothing but a save all of whose positions are found is restored. -/
theorem findsGame_of_restore {after : Machine} (h : m.restore save = .ok after) :
    m.FindsGame save := by
  obtain ⟨frames, pc, hframes, hpc, -⟩ := restore_eq_ok h
  exact ⟨⟨frames, framesOf_eq_ok_iff_finds.mp hframes⟩, pc, hpc⟩

/-! ## The call of the host -/

private theorem loadSlot_of_stores {after : Machine} (hstores : m.Stores slot save)
    (hrestore : m.restore save = .ok after) : loadSlot slot m = .ok () after := by
  obtain ⟨bytes, hread, hsave⟩ := hstores
  have hfolder : m.requireSaves = .ok () := by
    rw [readSaved?] at hread
    rw [requireSaves]
    cases hsaves : m.saves with
    | absent =>
      rw [hsaves] at hread
      cases hread
    | missing | folder files => rfl
  rw [loadSlot, Action.get_bind, Action.ofExcept_bind_of_ok hfolder, hread]
  show (Action.ofExcept (Save.ofBytes bytes) >>= _ : Run Unit) m = _
  rw [Action.ofExcept_bind_of_ok hsave, Action.ofExcept_bind_of_ok hrestore]
  rfl

private theorem serve_loadSlot_of_ok {after : Machine} (h : loadSlot slot m = .ok () after) :
    m.serve (.loadSlot slot) = (.ok .done, after) := by
  have hcall : unlocated (Machine.loadSlot slot) m = .ok () after := by rw [unlocated, h]
  rw [serve, HostCall.perform, Action.bind_of_ok hcall]
  rfl

private theorem serve_loadSlot_of_error {fault : Fault} {after : Machine}
    (h : loadSlot slot m = .error fault after) :
    m.serve (.loadSlot slot) = (.error (.ofFault fault), after) := by
  have hcall : unlocated (Machine.loadSlot slot) m = .error (.ofFault fault) after := by
    rw [unlocated, h]
  rw [serve, HostCall.perform, Action.bind_of_error hcall]

/-- **Loading is all or nothing.** Whatever is in the folder for saves, or if there is none, one of
two things happens. The slot holds a save with all positions in the script, and the game goes on
with it. Or it holds no such save, the call fails, and the machine is exactly as before. -/
theorem load_all_or_nothing (h : Reachable m) (saves : SaveArea) (slot : Int32) :
    let disk : Machine := { m with saves }
    (∃ save, disk.Stores slot save ∧ disk.FindsGame save ∧
      ∃ after, disk.serve (.loadSlot slot) = (.ok .done, after) ∧ disk.GoesOnWith save after) ∨
    ((¬ ∃ save, disk.Stores slot save ∧ disk.FindsGame save) ∧
      ∃ fault, disk.serve (.loadSlot slot) = (.error (.ofFault fault), disk)) := by
  intro disk
  by_cases hgame : ∃ save, disk.Stores slot save ∧ disk.FindsGame save
  · left
    obtain ⟨save, hstores, hfound⟩ := hgame
    obtain ⟨after, hrestore, hgoes⟩ := goesOnWith_restore (m := disk) h.wellFormed hstores hfound
    exact ⟨save, hstores, hfound, after,
      serve_loadSlot_of_ok (loadSlot_of_stores hstores hrestore), hgoes⟩
  · right
    refine ⟨hgame, ?_⟩
    cases hload : loadSlot slot disk with
    | ok _ after =>
      obtain ⟨save, hstores, hrestore⟩ := loadSlot_eq_ok hload
      exact absurd ⟨save, hstores, findsGame_of_restore hrestore⟩ hgame
    | error fault after =>
      obtain rfl := atomic_loadSlot slot hload
      exact ⟨fault, serve_loadSlot_of_error hload⟩

/-- A script with a call inside a loop. -/
def loopScript : Script where
  bytes := (Bytes.ofText "*start\nfor %3 = 1 to 9\ngosub *sub\nnext\nend\n*sub\nreturn\n").toArray
  encoding := .utf8

/-- The machine at the start of this script, with two global slots. -/
def beforeLoop : Machine :=
  fresh loopScript { variableSlots := 4, globalBorder := some 2 } .absent

/-- The same machine beside a save slot with the given contents. -/
def besideSlot (contents : Bytes) : Machine :=
  { beforeLoop with saves := .folder { files := [(Save.fileName 1, contents)] } }

/-- A save from inside the call. It lists the global slots, one local slot below and above the fixed
ones, another one twice, and an array twice. -/
def listedTwice : Save where
  position := ⟨"sub", 1, 0⟩
  inText := false
  narrow := true
  frames := [.loop (.int 3) 9 1 ⟨"start", 1, 15⟩ false, .call 0 ⟨"start", 2, 10⟩ none none]
  vars :=
    { firstLocal := 1
      locals := [⟨7, none⟩, ⟨8, some [0x61]⟩]
      overflow := [(2, ⟨9, none⟩), (0, ⟨5, none⟩), (300, ⟨1, some [0x62]⟩), (300, ⟨2, none⟩)]
      grids := [(1, ⟨[1], #[1, 2]⟩), (1, ⟨[1], #[3, 4]⟩)] }
  description := none

/-- This save is loaded, and of what it lists twice the last counts. Without its last byte nothing
of it is loaded. -/
theorem load_all_or_nothing_listedTwice :
    Reachable beforeLoop ∧
    (∃ after, (besideSlot listedTwice.toBytes).serve (.loadSlot 1) = (.ok .done, after) ∧
      after.pc = 48 ∧ after.nesting.depth = 2 ∧
      after.store.slot 0 = {} ∧ after.store.slot 1 = {} ∧ after.store.slot 2 = { num := 9 } ∧
      after.store.slot 3 = {} ∧ after.store.slot 300 = { num := 2 } ∧
      after.store.grids.get? 1 = some ⟨[1], #[3, 4]⟩) ∧
    ∃ fault, (besideSlot listedTwice.toBytes.dropLast).serve (.loadSlot 1) =
      (.error (.ofFault fault), besideSlot listedTwice.toBytes.dropLast) := by
  have hload : load loopScript { variableSlots := 4, globalBorder := some 2 } .absent =
      .ok beforeLoop := rfl
  have hreach : Reachable beforeLoop := .load hload
  have hsave : Save.ofBytes listedTwice.toBytes = .ok listedTwice := by decide +kernel
  have hframes : (besideSlot listedTwice.toBytes).framesOf listedTwice.frames =
      .ok [.loop ⟨.int 3, 9, 1, 22, false⟩, .call ⟨.gosub, 33, none, none⟩] := by decide +kernel
  have hpc : (besideSlot listedTwice.toBytes).addressOf listedTwice.position = .ok 48 := by
    decide +kernel
  have hstores : (besideSlot listedTwice.toBytes).Stores 1 listedTwice := ⟨_, rfl, hsave⟩
  have hfound : (besideSlot listedTwice.toBytes).FindsGame listedTwice :=
    ⟨⟨_, framesOf_eq_ok_iff_finds.mp hframes⟩, 48, hpc⟩
  refine ⟨hreach, ?_, ?_⟩
  · obtain ⟨save, hstores', -, after, hserve, hgoes⟩ | ⟨hnone, -⟩ :=
      load_all_or_nothing hreach (besideSlot listedTwice.toBytes).saves 1
    · obtain ⟨bytes, hread, hsave'⟩ := hstores'
      cases hread
      cases hsave.symm.trans hsave'
      have hborder : (besideSlot listedTwice.toBytes).store.border = 2 := by decide
      refine ⟨after, hserve, ?_, ?_, ?_, ?_, ?_, ?_, ?_, ?_⟩
      · exact Except.ok.inj (hgoes.pc.symm.trans hpc)
      · have hlength := hgoes.frames.length_eq
        rw [List.length_reverse] at hlength
        exact hlength.symm
      · exact hgoes.globals 0 (by decide)
      · exact hgoes.globals 1 (by decide)
      · exact hgoes.listed 2 ⟨9, none⟩ (by decide) (by decide)
      · exact hgoes.blank (by decide) (by decide) (by decide)
      · exact hgoes.listed 300 ⟨2, none⟩ (by decide) (by decide)
      · exact (hgoes.grids 1).trans (by decide)
    · exact absurd ⟨listedTwice, hstores, hfound⟩ hnone
  · obtain ⟨save, ⟨bytes, hread, hsave'⟩, -⟩ | ⟨-, hfault⟩ :=
      load_all_or_nothing hreach (besideSlot listedTwice.toBytes.dropLast).saves 1
    · cases hread
      have hshort : Save.ofBytes listedTwice.toBytes.dropLast ≠ .ok save := by
        have : (Save.ofBytes listedTwice.toBytes.dropLast).toOption = none := by decide +kernel
        intro heq
        rw [heq] at this
        cases this
      exact absurd hsave' hshort
    · exact hfault

end Machine

end NovelScript
