import NovelScript.Proofs.Machine.Loads
import NovelScript.Proofs.Store.Restore

/-!
# Bounds of integers

A slot may have bounds for its integer. Writing it, bounding it anew and a reset all move the
integer within the bounds, and nothing else that a script does touches it. Only what is put back as
it is may leave the bounds: a saved integer that was written before the slot was bounded. As long as
no such integer is put back, the integers of all slots are within their bounds.
-/

namespace NovelScript

/-! ## Integers within their bounds -/

/-- The integer is within the bounds, if there are any. -/
def Slot.Admits (slot : Slot) (num : Int32) : Prop :=
  ∀ limit ∈ slot.limit, limit.lower ≤ num ∧ num ≤ limit.upper

instance (slot : Slot) (num : Int32) : Decidable (slot.Admits num) :=
  inferInstanceAs (Decidable (∀ limit ∈ slot.limit, limit.lower ≤ num ∧ num ≤ limit.upper))

/-- Bounds in the right order admit what is moved within them. -/
theorem Limit.clamp_mem {limit : Limit} (h : limit.lower ≤ limit.upper) (value : Int32) :
    limit.lower ≤ limit.clamp value ∧ limit.clamp value ≤ limit.upper := by
  rw [clamp]
  split
  · exact ⟨Int32.le_refl _, h⟩
  · next hlower =>
    split
    · exact ⟨h, Int32.le_refl _⟩
    · next hupper => exact ⟨Int32.not_lt.mp hlower, Int32.not_lt.mp hupper⟩

/-- Bounds that admit anything admit what is moved within them. -/
theorem Slot.Admits.bounded {slot : Slot} {num : Int32} (h : slot.Admits num) (value : Int32) :
    slot.Admits (slot.bounded value) := by
  intro limit hlimit
  obtain ⟨hlower, hupper⟩ := h limit hlimit
  have hbounded : slot.bounded value = limit.clamp value := by
    rw [Slot.bounded, show slot.limit = some limit from hlimit]
  rw [hbounded]
  exact Limit.clamp_mem (Int32.le_trans hlower hupper) value

namespace Store

variable {store next : Store}

/-- The integers of all slots are within their bounds. -/
def Limited (store : Store) : Prop :=
  ∀ n, (store.slot n).Admits (store.int n)

/-- The edit puts no integer back that is out of the bounds of its slot. -/
def Edit.Confined (store : Store) : Edit → Prop
  | restoreSlot n num _ => (store.slot n).Admits num
  | _ => True

private theorem Edit.Scripted.confined {edit : Edit} (h : edit.Scripted store) :
    edit.Confined store := by
  cases edit with
  | restoreSlot n num str => exact absurd h id
  | _ => exact trivial

namespace Limited

private theorem modifySlot (h : store.Limited) (n : Nat) {f : Slot → Slot}
    (hf : (f (store.slot n)).Admits (f (store.slot n)).num) :
    (store.modifySlot n f).Limited := by
  intro k
  rw [Store.int, slot_modifySlot]
  split
  · exact hf
  · exact h k

private theorem reset (h : store.Limited) (hsorted : store.overflow.Sorted) :
    store.reset.Limited := by
  intro k
  rw [Store.int, slot_reset hsorted]
  split
  · exact h k
  · exact (h k).bounded 0

/-- Every edit keeps integers within their bounds that puts none back. -/
theorem apply (h : store.Limited) (hsorted : store.overflow.Sorted) {edit : Edit}
    (hconfined : edit.Confined store) (hedit : edit.apply store = .ok next) : next.Limited := by
  cases edit with
  | setInt n value =>
    cases hedit
    exact h.modifySlot n ((h n).bounded value)
  | setStr n value =>
    cases hedit
    exact h.modifySlot n (h n)
  | setLimit n lower upper =>
    simp only [Edit.apply, setLimit] at hedit
    split at hedit
    · cases hedit
    · next hordered =>
      cases hedit
      refine h.modifySlot n fun limit hlimit => ?_
      cases hlimit
      exact Limit.clamp_mem (Int32.not_lt.mp hordered) _
  | restoreSlot n num str =>
    cases hedit
    exact h.modifySlot n hconfined
  | declare no dims =>
    obtain ⟨grids, -, hnext⟩ := Action.exists_of_bind_eq_ok hedit
    cases hnext
    exact h
  | setElement no indices offset value =>
    obtain ⟨grids, -, hnext⟩ := Action.exists_of_bind_eq_ok hedit
    cases hnext
    exact h
  | setBorder border =>
    cases hedit
    exact h
  | putGrid no grid =>
    cases hedit
    exact h
  | clearGrids =>
    cases hedit
    exact h
  | reset =>
    cases hedit
    exact h.reset hsorted

/-- Nor does any number of such edits move one out. -/
theorem edits (h : store.Limited) (hstore : store.WellFormed)
    (hedits : Edits Edit.Confined store next) : next.Limited := by
  induction hedits with
  | refl => exact h
  | tail hbefore hedit ih =>
    obtain ⟨edit, hconfined, hedit⟩ := hedit
    exact ih.apply (hstore.edits hbefore).overflow hconfined hedit

/-- A counter of a loop is moved within its bounds, like all that is written. -/
theorem writeInt (h : store.Limited) {value : Int32} {target : VariableRef}
    (hwrite : store.writeInt value target = .ok next) : next.Limited := by
  cases target with
  | int n =>
    cases hwrite
    exact h.modifySlot n ((h n).bounded value)
  | array no indices =>
    obtain ⟨grids, -, hnext⟩ := Action.exists_of_bind_eq_ok hwrite
    cases hnext
    exact h
  | str n => cases hwrite

end Limited

end Store

/-! ## Saved integers -/

namespace SavedVariables

/-- Every saved integer is within the bounds of the local slot that it would be put back to. -/
def Confined (saved : SavedVariables) (store : Store) : Prop :=
  ∀ entry ∈ saved.entries, store.border ≤ entry.1 → (store.slot entry.1).Admits entry.2.num

private theorem limit_restoreLocal (store : Store) (n k : Nat) (saved : SavedSlot) :
    ((restoreLocal store n saved).slot k).limit = (store.slot k).limit := by
  rw [slot_restoreLocal]
  split <;> rfl

private theorem limited_restoreAll {entries : Table Nat SavedSlot} {store : Store}
    (h : store.Limited) (hentries : ∀ entry ∈ entries, store.border ≤ entry.1 →
      (store.slot entry.1).Admits entry.2.num) :
    (restoreAll entries store).Limited := by
  induction entries generalizing store with
  | nil => exact h
  | cons entry rest ih =>
    obtain ⟨n, saved⟩ := entry
    obtain ⟨hfirst, hrest⟩ := List.forall_mem_cons.mp hentries
    change (restoreAll rest (restoreLocal store n saved)).Limited
    refine ih (fun k => ?_) fun entry hentry hlocal => ?_
    · rw [Store.int, slot_restoreLocal]
      split
      · next hk =>
        obtain ⟨rfl, hlocal⟩ := hk
        exact hfirst hlocal
      · exact h k
    · intro limit hlimit
      rw [limit_restoreLocal] at hlimit
      rw [border_restoreLocal] at hlocal
      exact hrest entry hentry hlocal limit hlimit

/-- Saved variables that are within the bounds of their slots may be put back. -/
theorem limited_restore {saved : SavedVariables} {store : Store} (h : store.Limited)
    (hstore : store.WellFormed) (hsaved : saved.Confined store) :
    (saved.restore store).Limited := by
  have hall : (restoreAll saved.entries store.reset).Limited := by
    refine limited_restoreAll (h.reset hstore.overflow) fun entry hentry hlocal limit hlimit => ?_
    have hlocal : store.border ≤ entry.1 := hlocal
    rw [Store.slot_reset hstore.overflow, if_neg (Nat.not_lt.mpr hlocal)] at hlimit
    exact hsaved entry hentry hlocal limit hlimit
  rw [restore_eq]
  exact hall

end SavedVariables

/-- Whatever a script does keeps integers within their bounds. -/
theorem Core.limited_of_steps {way : Nesting.Direction} {core next : Core}
    (hway : way.fitting = true) (hstore : core.store.WellFormed) (h : core.store.Limited)
    (hsteps : Relation.ReflTransGen (Core.Step way) core next) : next.store.Limited := by
  induction hsteps with
  | refl => exact h
  | tail hbefore hstep ih =>
    cases hstep with
    | move | begin | pass | nest => exact ih
    | edit hedits =>
      refine ih.edits (hstore.edits (Core.edits_of_steps hbefore)) ?_
      exact hedits.mono fun _ _ hallowed => (hallowed hway).confined
    | count hframe hwrite => exact ih.writeInt hwrite

namespace Machine

variable {m : Machine}

/-- The call puts no integer back that is out of the bounds of its slot, neither by an edit nor with
a game that it may load. -/
def HostCall.Confined (m : Machine) : HostCall → Prop
  | edit change => change.Confined m.store
  | call => ∀ save, call.Offers m save → save.vars.Confined m.store

/-- A machine at the start of some script. -/
def Loaded (m : Machine) : Prop :=
  ∃ script settings saves entropy library,
    Machine.load script settings saves entropy library = .ok m

private theorem Loaded.reachable (h : Loaded m) : Reachable m := by
  obtain ⟨script, settings, saves, entropy, library, h⟩ := h
  exact .load h

/-- Global variables of another session are put into slots without changing the bounds. -/
theorem limit_restoreGlobalsFrom (count n : Nat) (feed : Feed) (store : Store) (k : Nat) :
    (((Store.restoreGlobalsFrom count n feed store).2).slot k).limit = (store.slot k).limit := by
  induction count generalizing n feed store with
  | zero => rfl
  | succ count ih =>
    rw [Store.restoreGlobalsFrom]
    split
    · rfl
    · split
      · rfl
      · rw [ih, Store.restoreSlot, Store.slot_modifySlot]
        split
        · next hk => rw [hk]
        · rfl

/-- New variables have no bounds. -/
theorem Loaded.limited (h : Loaded m) : m.store.Limited := by
  obtain ⟨script, settings, saves, entropy, library, h⟩ := h
  obtain ⟨labelLog, fileLog, store, -, -, hstore, rfl⟩ := loadPersistent_eq_ok h
  let start := fresh script settings saves entropy library
  have hblank : ∀ k, (start.store.slot k).limit = none := by
    intro k
    show ((Store.blank _ _).slot k).limit = none
    rw [Store.slot_blank]
  have hunbounded : ∀ k, (store.slot k).limit = none := by
    intro k
    rw [loadGlobals] at hstore
    split at hstore
    · cases hstore
      exact hblank k
    · next bytes _ =>
      split at hstore
      · next hrestored =>
        cases hstore
        have hsame := limit_restoreGlobalsFrom start.store.border 0
          { rest := bytes, offset := 0 } start.store k
        rw [← Store.restoreGlobals, hrestored] at hsame
        exact hsame.trans (hblank k)
      · cases hstore
  intro k limit hlimit
  rw [hunbounded k] at hlimit
  cases hlimit

/-- A call that puts no integer back out of its bounds moves none out of them. -/
theorem limited_serve (hm : Reachable m) (h : m.store.Limited) {call : HostCall}
    (hcall : call.Confined m) : (m.serve call).2.store.Limited := by
  obtain ⟨way, hway, hevolves⟩ | ⟨change, store, rfl, hstore, hnext⟩ |
    ⟨save, middle, hoffers, hunderway, hrestored⟩ := serve_cases hm.inside call
  · exact Core.limited_of_steps hway hm.wellFormed h hevolves.steps
  · rw [hnext]
    exact h.apply hm.wellFormed.overflow hcall hstore
  · obtain ⟨frames, pc, -, -, hnext⟩ := restore_eq_ok hrestored
    rw [hnext]
    have hsaved : save.vars.Confined m.store := by
      cases call with
      | edit change => exact absurd hoffers id
      | _ => exact hcall save hoffers
    rw [← hunderway.store] at h hsaved
    have hstore : middle.store.WellFormed := by
      rw [hunderway.store]
      exact hm.wellFormed
    exact SavedVariables.limited_restore h hstore hsaved

/-- As long as no integer is put back out of its bounds, all are within them. -/
theorem Driven.limited (h : Driven Loaded HostCall.Confined m) : m.store.Limited := by
  induction h with
  | start h => exact h.limited
  | serve h call hcall ih => exact limited_serve (h.reachable fun _ h => h.reachable) ih hcall

/-- **Integers stay within their bounds.** Load any script and make any calls, whether they succeed
or fail, among them steps that execute any commands, edits by the host, and saves. As long as no
integer is put back that is out of the bounds of its slot, every slot that has bounds holds an
integer within them. -/
theorem bounds_respected (h : Driven Loaded HostCall.Confined m) (n : Nat) (limit : Limit)
    (hlimit : (m.store.slot n).limit = some limit) :
    limit.lower ≤ m.store.int n ∧ m.store.int n ≤ limit.upper :=
  h.limited n limit hlimit

/-- A script that bounds a variable, and writes it out of its bounds. -/
def bounding : Script where
  bytes := (Bytes.ofText "intlimit %1,0,10:mov %1,50\nend\n").toArray
  encoding := .utf8

/-- The script before it is executed, with a local variable. -/
def beforeBounding : Machine :=
  fresh bounding { variableSlots := 2, globalBorder := some 1 } .absent

/-- The script after both of its commands. -/
def afterBounding : Machine :=
  ((beforeBounding.serve .step).2.serve .step).2

/-- A game in which the variable is 5. -/
def withinBounds : Save :=
  { beforeBounding.snapshot 0 none with
    vars := { firstLocal := 1, locals := [⟨5, none⟩], overflow := [], grids := [] } }

/-- The script moves the variable within its bounds, and so does the host; a game in which it is
within them is loaded. -/
theorem bounds_respected_afterBounding :
    Driven Loaded HostCall.Confined (afterBounding.serve (.restore withinBounds)).2 ∧
      afterBounding.store.int 1 = 10 ∧
      (afterBounding.serve (.restore withinBounds)).2.store.slot 1 = ⟨5, none, some ⟨0, 10⟩⟩ ∧
      (0 ≤ (afterBounding.serve (.restore withinBounds)).2.store.int 1 ∧
        (afterBounding.serve (.restore withinBounds)).2.store.int 1 ≤ 10) := by
  have hload : Loaded beforeBounding :=
    ⟨bounding, { variableSlots := 2, globalBorder := some 1 }, .absent, _, _, rfl⟩
  have hplain : HostCall.step.loads beforeBounding = false ∧
      HostCall.step.loads (beforeBounding.serve .step).2 = false := by decide +kernel
  have hslots : afterBounding.store.slot 1 = ⟨10, none, some ⟨0, 10⟩⟩ ∧
      (afterBounding.serve (.restore withinBounds)).2.store.slot 1 =
        ⟨5, none, some ⟨0, 10⟩⟩ := by decide +kernel
  have hdriven : Driven Loaded HostCall.Confined afterBounding := by
    refine ((Driven.start hload).serve .step ?_).serve .step ?_
    · rintro save ⟨hloads, -⟩
      rw [hplain.1] at hloads
      cases hloads
    · rintro save ⟨hloads, -⟩
      rw [hplain.2] at hloads
      cases hloads
  have hgame : HostCall.Confined afterBounding (.restore withinBounds) := by
    rintro save rfl entry hentry -
    obtain rfl : entry = (1, ⟨5, none⟩) := List.mem_singleton.mp hentry
    rw [hslots.1]
    decide
  have hloaded := hdriven.serve _ hgame
  refine ⟨hloaded, ?_, hslots.2, ?_⟩
  · rw [Store.int, hslots.1]
  · exact bounds_respected hloaded 1 ⟨0, 10⟩ (by rw [hslots.2])

/-- A script that saves a variable, bounds it, and loads the save. -/
def savedBeforeBounding : Script where
  bytes := (Bytes.ofText "mov %1,50:savegame 1:intlimit 1,0,10:loadgame 1\nend\n").toArray
  encoding := .utf8

/-- The variable is saved before it is bounded, and is out of its bounds after the game is
loaded. -/
theorem bounds_exceeded_savedBeforeBounding :
    ∃ m : Machine, Loaded m ∧
      ((m.serveAll (List.replicate 3 .step)).2.store.slot 1) = ⟨10, none, some ⟨0, 10⟩⟩ ∧
      ((m.serveAll (List.replicate 4 .step)).2.store.slot 1) = ⟨50, none, some ⟨0, 10⟩⟩ := by
  refine ⟨fresh savedBeforeBounding { variableSlots := 2, globalBorder := some 1 } (.folder {}),
    ⟨savedBeforeBounding, { variableSlots := 2, globalBorder := some 1 }, .folder {}, _, _,
      rfl⟩, ?_, ?_⟩
  · decide +kernel
  · decide +kernel

end Machine

end NovelScript
