import NovelScript.Proofs.Store.WellFormed

/-!
# What a reset leaves of the variables

A reset keeps the global slots and all bounds, and nothing else. Variables that agree in these are
equal after a reset, down to the slots that exist: a slot above the fixed ones in which nothing is
left is dropped. The number of fixed slots never changes.
-/

namespace NovelScript

/-- What is left of a slot depends on its bounds only. -/
theorem Slot.cleared_eq {slot other : Slot} (h : other.limit = slot.limit) :
    other.cleared = slot.cleared := by
  simp only [cleared, bounded, h]

namespace Store

variable {store next s t : Store}

private theorem fixed_eq_slot {n : Nat} (h : n < store.fixed.size) :
    store.fixed[n] = store.slot n := by
  simp [Store.slot, slot?, h]

/-- After a reset a slot above the fixed ones exists exactly if something is left in it. -/
theorem get?_overflow_reset {n : Nat} (hn : store.fixed.size ≤ n) :
    store.reset.overflow.get? n =
      if (store.reset.slot n).isBlank then none else some (store.reset.slot n) := by
  have habove : ¬ n < store.reset.fixed.size := by
    simpa [reset] using hn
  have hslot : store.reset.slot n = (store.reset.overflow.get? n).getD {} := by
    rw [Store.slot, slot?, if_neg habove]
  cases hget : store.reset.overflow.get? n with
  | none =>
    rw [hslot, hget]
    rfl
  | some slot =>
    have hkept := (List.mem_filter.mp (Table.mem_of_get? hget)).2
    have hleft : slot.isBlank = false := by simpa using hkept
    rw [hslot, hget, Option.getD_some, hleft]
    rfl

/-- The variables agree in what a reset leaves: the border, the global slots and all bounds. -/
structure SameGlobals (s t : Store) : Prop where
  /-- The same slots are global. -/
  border : t.border = s.border
  /-- The global slots are the same. -/
  globals : ∀ n < s.border, t.slot n = s.slot n
  /-- The bounds of all slots are the same. -/
  limits : ∀ n, (t.slot n).limit = (s.slot n).limit

/-- **A reset forgets everything else.** -/
theorem SameGlobals.reset_eq (h : s.SameGlobals t) (hs : s.WellFormed) (ht : t.WellFormed)
    (hsize : t.fixed.size = s.fixed.size) : t.reset = s.reset := by
  have hslot : ∀ n, t.reset.slot n = s.reset.slot n := by
    intro n
    rw [slot_reset hs.overflow, slot_reset ht.overflow, h.border]
    split
    · next hn => exact h.globals n hn
    · exact Slot.cleared_eq (h.limits n)
  have hfixed : t.reset.fixed = s.reset.fixed := by
    apply Array.ext
    · simpa [reset] using hsize
    · intro n ht hs
      rw [fixed_eq_slot, fixed_eq_slot, hslot]
  have hoverflow : t.reset.overflow = s.reset.overflow := by
    refine ht.reset.overflow.eq_of_get? hs.reset.overflow fun n => ?_
    by_cases hn : s.fixed.size ≤ n
    · rw [get?_overflow_reset hn, get?_overflow_reset (hsize ▸ hn), hslot]
    · -- No slot is kept twice.
      have hnone : ∀ {store : Store}, store.WellFormed → store.fixed.size = s.fixed.size →
          store.reset.overflow.get? n = none := by
        intro store hstore hsame
        refine Table.get?_eq_none fun entry hentry heq => ?_
        have habove := hstore.reset.above entry hentry
        have hkept : store.reset.fixed.size = store.fixed.size := by simp [reset]
        omega
      rw [hnone hs rfl, hnone ht hsize]
  have heq : ∀ store : Store, store.reset =
      ⟨store.reset.fixed, store.reset.overflow, store.border, {}⟩ := fun _ => rfl
  rw [heq t, heq s, hfixed, hoverflow, h.border]

/-- Writing the integer of a local slot makes no difference to a reset. -/
theorem sameGlobals_setInt {n : Nat} (h : store.border ≤ n) (value : Int32) :
    (store.setInt n value).SameGlobals store := by
  have hborder : (store.setInt n value).border = store.border := by
    simp only [setInt, modifySlot, putSlot]
    split <;> rfl
  refine ⟨hborder.symm, fun k hk => ?_, fun k => ?_⟩
  · rw [setInt, slot_modifySlot, if_neg (by omega)]
  · rw [setInt, slot_modifySlot]
    split
    · next hk => rw [hk]
    · rfl

/-! ## Fixed slots -/

/-- Changing a slot leaves the number of fixed slots alone. -/
theorem size_modifySlot (store : Store) (n : Nat) (f : Slot → Slot) :
    (store.modifySlot n f).fixed.size = store.fixed.size := by
  simp only [modifySlot, putSlot]
  split
  · simp
  · rfl

/-- No edit changes the number of fixed slots. -/
theorem Edit.size_apply {edit : Edit} (h : edit.apply store = .ok next) :
    next.fixed.size = store.fixed.size := by
  cases edit with
  | setInt | setStr | restoreSlot =>
    cases h
    exact size_modifySlot _ _ _
  | setLimit n lower upper =>
    simp only [apply, Store.setLimit] at h
    split at h
    · cases h
    · cases h
      exact size_modifySlot _ _ _
  | declare =>
    obtain ⟨grids, -, h⟩ := Action.exists_of_bind_eq_ok h
    cases h
    rfl
  | setElement =>
    obtain ⟨grids, -, h⟩ := Action.exists_of_bind_eq_ok h
    cases h
    rfl
  | setBorder | putGrid | clearGrids =>
    cases h
    rfl
  | reset =>
    cases h
    simp [Store.reset]

/-- Edits leave the number of fixed slots alone. -/
theorem Edits.size_eq {allowed : Store → Edit → Prop} (h : Edits allowed store next) :
    next.fixed.size = store.fixed.size := by
  induction h with
  | refl => rfl
  | tail _ hedit ih =>
    obtain ⟨edit, -, hedit⟩ := hedit
    exact (Edit.size_apply hedit).trans ih

end Store

end NovelScript
