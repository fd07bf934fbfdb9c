import NovelScript.Proofs.Machine.Numbers

/-!
# What a save keeps

A save slot holds a snapshot as bytes, with strings that end at a zero byte and numbers of 32 bits.
The snapshot of a machine that can be reached comes back from its bytes exactly if the numbers of
slots and the sizes of arrays are as a script can choose them, everything that is counted can be
counted in 31 bits, and no string of a local variable has a zero byte. The first of these holds as
long as nobody but the script chooses them. The last may fail, since a string of a script may hold
any byte.
-/

namespace NovelScript

/-- How many indices the counter of a loop has. -/
def Frame.indexCount : Frame → Nat
  | call _ => 0
  | loop frame =>
    match frame.counter with
    | .int _ | .str _ => 0
    | .array _ indices => indices.length

namespace Machine

variable {m : Machine}

/-- A save has room for the numbers of calls, loops, indices, slots and arrays. -/
structure CountsFit (m : Machine) : Prop where
  /-- Open calls and loops. -/
  frames : m.nesting.depth < 2 ^ 31
  /-- The indices of the counters of loops. -/
  indices : ∀ frame ∈ m.nesting.frames, frame.indexCount < 2 ^ 31
  /-- Local slots and arrays. -/
  store : m.store.CountsFit

/-- The names of labels have no zero byte. -/
theorem storable_positionOf (hm : m.core.Inside m.script) (addr : Nat) :
    (m.positionOf addr).Storable := by
  unfold SavedPosition.Storable positionOf
  cases hlabel : m.labels.enclosing? addr with
  | none => exact List.not_mem_nil
  | some label =>
    have hmem := (LabelTable.mem_of_enclosing? hlabel).1
    rw [show m.labels = _ from hm.labels] at hmem
    exact Text.Utf8.zero_notMem_ofText (LabelTable.stands_of_mem_build hmem).plain

/-- The frame of a call can be stored, as all its addresses are in the script. -/
theorem storable_savedFrame_call (hm : m.core.Inside m.script) (frame : CallFrame) :
    (m.savedFrame (.call frame)).Storable := by
  refine ⟨storable_positionOf hm _, fun position hposition => ?_, fun mark hmark => ?_⟩
  · obtain ⟨addr, -, rfl⟩ := Option.map_eq_some_iff.mp hposition
    exact storable_positionOf hm addr
  · obtain ⟨bookmark, -, rfl⟩ := Option.map_eq_some_iff.mp hmark
    exact storable_positionOf hm bookmark.addr

private theorem storable_savedFrame_loop (hm : m.core.Inside m.script) (frame : LoopFrame) :
    (m.savedFrame (.loop frame)).Storable ↔
      frame.counter.Numbered ∧ (Frame.loop frame).indexCount < 2 ^ 31 := by
  have hcounter : (m.savedFrame (.loop frame)).Storable ↔ frame.counter.Storable :=
    and_iff_left (storable_positionOf hm frame.body)
  rw [hcounter]
  obtain ⟨counter, bound, step, body, finished⟩ := frame
  cases counter <;> simp [VariableRef.Storable, VariableRef.Numbered, Frame.indexCount]

/-- When a snapshot has room in the format. -/
theorem storable_snapshot (hm : Reachable m) (resume : Nat) (description : Option Bytes) :
    (m.snapshot resume description).Storable ↔
      m.core.NumbersFit ∧ m.CountsFit ∧ m.store.ZeroFree := by
  have hlength : (m.nesting.frames.reverse.map m.savedFrame).length = m.nesting.depth := by
    rw [List.length_map, List.length_reverse]
    rfl
  constructor
  · intro h
    have hloop : ∀ frame, Frame.loop frame ∈ m.nesting.frames →
        (m.savedFrame (.loop frame)).Storable := fun frame hframe =>
      h.frames _ (List.mem_map_of_mem (List.mem_reverse.mpr hframe))
    refine ⟨⟨⟨fun entry hentry => ?_, h.grids⟩, fun frame hframe => ?_⟩,
      ⟨hlength ▸ h.frameCount, fun frame hframe => ?_, ?_⟩, ?_⟩
    · by_cases hlocal : m.store.border ≤ entry.1
      · have hmem : (entry.1, entry.2.toSaved) ∈ (SavedVariables.ofStore m.store).overflow :=
          SavedVariables.mem_overflow_ofStore.mpr ⟨entry.2, hentry, hlocal, rfl⟩
        exact .inl (h.overflow _ hmem).1
      · exact .inr (Nat.lt_of_not_le hlocal)
    · exact ((storable_savedFrame_loop hm.inside frame).mp (hloop frame hframe)).1
    · cases frame with
      | call frame => exact Nat.two_pow_pos 31
      | loop frame => exact ((storable_savedFrame_loop hm.inside frame).mp (hloop frame hframe)).2
    · exact Store.countsFit_iff.mpr ⟨h.firstLocal, h.localCount, h.overflowCount, h.gridCount⟩
    · refine hm.wellFormed.zeroFree_iff.mpr ⟨h.locals, fun entry hentry => ?_⟩
      exact (h.overflow entry hentry).2
  · rintro ⟨hnumbers, hcounts, hzero⟩
    obtain ⟨hfirst, hlocals, hoverflow, hgrids⟩ := Store.countsFit_iff.mp hcounts.store
    obtain ⟨hslots, hfurther⟩ := hm.wellFormed.zeroFree_iff.mp hzero
    exact
      { position := storable_positionOf hm.inside resume
        frameCount := hlength.trans_lt hcounts.frames
        frames := by
          intro saved hsaved
          obtain ⟨frame, hframe, rfl⟩ := List.mem_map.mp hsaved
          rw [List.mem_reverse] at hframe
          cases frame with
          | call frame => exact storable_savedFrame_call hm.inside frame
          | loop frame =>
            refine (storable_savedFrame_loop hm.inside frame).mpr ⟨?_, ?_⟩
            · exact hnumbers.counters frame hframe
            · exact hcounts.indices _ hframe
        firstLocal := hfirst
        localCount := hlocals
        locals := hslots
        overflowCount := hoverflow
        overflow := by
          intro entry hentry
          refine ⟨?_, hfurther entry hentry⟩
          obtain ⟨slot, hslot, hlocal, -⟩ := SavedVariables.mem_overflow_ofStore.mp hentry
          exact (hnumbers.store.slots _ hslot).resolve_right (Nat.not_lt.mpr hlocal)
        gridCount := hgrids
        grids := hnumbers.store.grids }

/-- **A save keeps everything but strings with a zero byte.** Take any machine that can be reached,
any address to go on at and any description. The snapshot comes back from its bytes exactly if the
numbers of slots and the sizes of arrays are as a script can choose them, all counts fit in 31 bits,
and no string of a local variable has a zero byte. As long as the host edits as a script could, and
goes on only with saves that fit, its own or those in files, the first of these holds whatever the
script does. -/
theorem snapshot_comes_back (hm : Reachable m) (resume : Nat) (description : Option Bytes) :
    (Save.ofBytes (m.snapshot resume description).toBytes = .ok (m.snapshot resume description) ↔
      m.core.NumbersFit ∧ m.CountsFit ∧ m.store.ZeroFree) ∧
    (Played m → m.core.NumbersFit) := by
  have hback : Save.ofBytes (m.snapshot resume description).toBytes =
      .ok (m.snapshot resume description) ↔ (m.snapshot resume description).Storable :=
    ⟨Save.storable_of_ofBytes, Save.Storable.ofBytes_toBytes⟩
  exact ⟨hback.trans (storable_snapshot hm resume description), Played.numbersFit⟩

/-- A script that writes an array and a string, and then loops over an element of the array. -/
def countInArray : Script where
  bytes := (Bytes.ofText "dim ?0[2][1]\nmov $1,\"ab\"\nfor ?0[1][0] = 1 to 3\nnext\nend\n").toArray
  encoding := .utf8

/-- The script before it is executed, with two fixed slots of which one is global. -/
def beforeCounting : Machine :=
  fresh countInArray { variableSlots := 2, globalBorder := some 1 } .absent

/-- The script in its loop. -/
def whileCounting : Machine :=
  (beforeCounting.serveAll (List.replicate 6 .step)).2

/-- A snapshot out of the loop comes back, with a quote for a description. -/
theorem snapshot_comes_back_whileCounting :
    Reachable whileCounting ∧ Played whileCounting ∧ whileCounting.nesting.depth = 1 ∧
      whileCounting.store.str 1 = [0x61, 0x62] ∧
      Save.ofBytes (whileCounting.snapshot 47 (some [0x22])).toBytes =
        .ok (whileCounting.snapshot 47 (some [0x22])) := by
  have hload : load countInArray { variableSlots := 2, globalBorder := some 1 } .absent =
      .ok beforeCounting := rfl
  have hplayed : Played whileCounting := (Played.load hload).steps (by decide +kernel)
  have hback := snapshot_comes_back hplayed.reachable 47 (some [0x22])
  -- Facts are decided together, so that the script is executed fewer times.
  have hcounts : whileCounting.nesting.depth < 2 ^ 31 ∧
      (∀ frame ∈ whileCounting.nesting.frames, frame.indexCount < 2 ^ 31) ∧
      (SavedVariables.ofStore whileCounting.store).firstLocal < 2 ^ 31 ∧
      (SavedVariables.ofStore whileCounting.store).locals.length < 2 ^ 31 ∧
      (SavedVariables.ofStore whileCounting.store).overflow.length < 2 ^ 31 ∧
      (SavedVariables.ofStore whileCounting.store).grids.length < 2 ^ 31 := by
    decide +kernel
  have hslots : (∀ slot ∈ (SavedVariables.ofStore whileCounting.store).locals, slot.Storable) ∧
      ∀ entry ∈ (SavedVariables.ofStore whileCounting.store).overflow, entry.2.Storable := by
    decide +kernel
  have hstate : whileCounting.nesting.depth = 1 ∧ whileCounting.store.str 1 = [0x61, 0x62] := by
    decide +kernel
  obtain ⟨hframes, hindices, hstore⟩ := hcounts
  have hfit : whileCounting.CountsFit := ⟨hframes, hindices, Store.countsFit_iff.mpr hstore⟩
  have hzero : whileCounting.store.ZeroFree :=
    hplayed.reachable.wellFormed.zeroFree_iff.mpr hslots
  refine ⟨hplayed.reachable, hplayed, hstate.1, hstate.2, ?_⟩
  exact hback.1.mpr ⟨hback.2 hplayed, hfit, hzero⟩

/-- A script that writes a string with a zero byte. -/
def zeroInString : Script where
  bytes := (Bytes.ofText "mov $1,\"a\x00b\"\nend\n").toArray
  encoding := .utf8

/-- The script after it has written the string. -/
def zeroWritten : Machine :=
  ((fresh zeroInString { variableSlots := 2, globalBorder := some 1 } .absent).serveAll [.step]).2

/-- The string ends at its zero byte in the save, and what is left over of it is taken for the
counts that follow, until the bytes run out. -/
theorem snapshot_zeroWritten :
    Reachable zeroWritten ∧ zeroWritten.store.str 1 = [0x61, 0x00, 0x62] ∧
      Save.ofBytes (zeroWritten.snapshot 0 none).toBytes = .error (.truncated 42 4) := by
  have hload : load zeroInString { variableSlots := 2, globalBorder := some 1 } .absent =
      .ok (fresh zeroInString { variableSlots := 2, globalBorder := some 1 } .absent) := rfl
  exact ⟨(Reachable.load hload).serveAll [.step], by decide +kernel, by decide +kernel⟩

end Machine

end NovelScript
