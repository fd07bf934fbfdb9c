import Mathlib.Order.Bounds.Defs
import Mathlib.Tactic.Linarith
import NovelScript.Proofs.Grid

/-!
# Counters of loops

A loop sets its counter to where it starts, and each pass adds its step, in 32 bits. The body runs
as long as the counter is not beyond the bound. If the bound and one more step fit in 32 bits, the
counter passes the bound before it overflows, and the number of passes is a quotient.
-/

namespace NovelScript

/-! ## Variables that count -/

namespace Store

/-- The variable keeps every integer that is written to it: it is the integer of a slot without
bounds, or an element of a declared array. -/
inductive Unbounded (store : Store) : VariableRef → Prop where
  /-- The integer of a slot. -/
  | slot {n : Nat} (h : (store.slot n).limit = none) : Unbounded store (.int n)
  /-- An element of an array. -/
  | element {no : Int32} {indices : List Int32} {grid : Grid} {cell : Nat}
    (hgrid : store.grids.get? no = some grid) (hcell : grid.cell no indices 0 = .ok cell)
    (hinside : cell < grid.cells.size) : Unbounded store (.array no indices)

/-- What is written to such a variable is read from it, and can be overwritten again. -/
theorem Unbounded.write {store : Store} {target : VariableRef} (h : store.Unbounded target)
    (value : Int32) : ∃ next : Store, store.writeInt value target = .ok next ∧
      next.readInt target = .ok value ∧ next.Unbounded target := by
  cases h with
  | @slot n h =>
    have hslot : (store.setInt n value).slot n =
        { store.slot n with num := (store.slot n).bounded value } := by
      rw [setInt, slot_modifySlot, if_pos rfl]
    refine ⟨store.setInt n value, rfl, ?_, .slot (by rw [hslot, h])⟩
    rw [readInt, int, hslot, Slot.bounded, h]
  | @element no indices grid cell hgrid hcell hinside =>
    let written : Grid := { grid with cells := grid.cells.setIfInBounds cell value }
    have hlookup : store.grids.lookup no = .ok grid := by rw [Grids.lookup, hgrid]
    have hget : (store.grids.put no written).get? no = some written := by
      rw [Grids.put, Grids.get?, Table.get?_insert, if_pos rfl]
    have hcell' : written.cell no indices 0 = .ok cell := hcell
    have hread : (store.grids.put no written).lookup no = .ok written := by
      rw [Grids.lookup, hget]
    refine ⟨{ store with grids := store.grids.put no written }, ?_, ?_, .element hget hcell' ?_⟩
    · rw [writeInt, Grids.write, hlookup]
      simp only [bind, Except.bind, hcell, pure, Except.pure]
      rfl
    · rw [readInt, Grids.read, hread]
      simp only [bind, Except.bind, hcell', pure, Except.pure]
      simp [written, Array.getD_eq_getD_getElem?, hinside]
    · simpa [written] using hinside

end Store

/-! ## Values of a counter -/

/-- What a loop is opened with. -/
structure LoopHead where
  /-- The counter. -/
  counter : VariableRef
  /-- Its first value. -/
  start : Int32
  /-- The last value for which the body runs. -/
  bound : Int32
  /-- What each pass adds. -/
  step : Int32
  deriving DecidableEq, Repr

namespace LoopHead

/-- The frame of the loop, if its body is at an address. -/
def frame (head : LoopHead) (body : Nat) : LoopFrame where
  counter := head.counter
  bound := head.bound
  step := head.step
  body := body
  finished := false

/-- Where the counter gets with some passes if nothing overflows. -/
def reach (head : LoopHead) (passes : Nat) : Int :=
  head.start.toInt + passes * head.step.toInt

/-- The counter after some passes. -/
def valueAfter (head : LoopHead) (passes : Nat) : Int32 :=
  .ofInt (head.reach passes)

/-- Whether the counter is beyond the bound after some passes, in the direction of the step. -/
def pastAfter (head : LoopHead) (passes : Nat) : Bool :=
  if 0 ≤ head.step then head.bound < head.valueAfter passes
  else head.valueAfter passes < head.bound

/-- The number of passes up to the bound, rounded down, and one more. -/
def passes (head : LoopHead) : Nat :=
  (max 0 ((head.bound.toInt - head.start.toInt).fdiv head.step.toInt + 1)).toNat

variable {head : LoopHead} {n : Nat}

/-- The frame of a loop counts the variable of its head. -/
@[simp]
theorem frame_counter (head : LoopHead) (body : Nat) : (head.frame body).counter = head.counter :=
  rfl

/-- It adds the step of its head. -/
@[simp]
theorem frame_step (head : LoopHead) (body : Nat) : (head.frame body).step = head.step := rfl

/-- It begins at the body. -/
@[simp]
theorem frame_body (head : LoopHead) (body : Nat) : (head.frame body).body = body := rfl

/-- It is not finished. -/
@[simp]
theorem frame_finished (head : LoopHead) (body : Nat) : (head.frame body).finished = false := rfl

/-- The frame of a loop tells where its counter is past the bound. -/
theorem isPast_frame (head : LoopHead) (body n : Nat) :
    (head.frame body).isPast (head.valueAfter n) = head.pastAfter n := rfl

private theorem reach_zero (head : LoopHead) : head.reach 0 = head.start.toInt := by
  simp [reach]

private theorem reach_succ (head : LoopHead) (n : Nat) :
    head.reach (n + 1) = head.reach n + head.step.toInt := by
  rw [reach, reach, Nat.cast_succ, Int.add_mul, Int.one_mul, Int.add_assoc]

/-- Before the first pass the counter has its first value. -/
@[simp]
theorem valueAfter_zero (head : LoopHead) : head.valueAfter 0 = head.start := by
  rw [valueAfter, reach_zero, Int32.ofInt_toInt]

/-- One more pass adds the step, in 32 bits. -/
theorem valueAfter_succ (head : LoopHead) (n : Nat) :
    head.valueAfter (n + 1) = head.valueAfter n + head.step := by
  rw [valueAfter, reach_succ, Int32.ofInt_add, Int32.ofInt_toInt, valueAfter]

/-- The integer is beyond the bound, in the direction of the step. -/
def Beyond (head : LoopHead) (value : Int) : Prop :=
  if 0 ≤ head.step.toInt then head.bound.toInt < value else value < head.bound.toInt

private theorem pastAfter_iff :
    head.pastAfter n = true ↔ head.Beyond (head.valueAfter n).toInt := by
  have hzero : (0 : Int32) ≤ head.step ↔ 0 ≤ head.step.toInt := Int32.le_iff_toInt_le
  rw [pastAfter, Beyond]
  by_cases h : 0 ≤ head.step.toInt
  · rw [if_pos h, if_pos (hzero.mpr h), decide_eq_true_iff, Int32.lt_iff_toInt_lt]
  · rw [if_neg h, if_neg fun hstep => h (hzero.mp hstep), decide_eq_true_iff,
      Int32.lt_iff_toInt_lt]

/-- Without overflow, the counter is beyond the bound when the passes are more than the steps from
the start to the bound. -/
theorem beyond_reach_iff (hstep : head.step ≠ 0) :
    head.Beyond (head.reach n) ↔
      (head.bound.toInt - head.start.toInt).fdiv head.step.toInt < n := by
  have hne : head.step.toInt ≠ 0 := fun h => hstep (Int32.toInt_inj.mp h)
  rw [Beyond, reach]
  split
  · next hup =>
    rw [Int.fdiv_eq_ediv_of_nonneg _ hup, Int.ediv_lt_iff_lt_mul (by omega)]
    omega
  · next hdown =>
    -- Downwards, both differences change their sign.
    rw [← Int.neg_fdiv_neg, Int.fdiv_eq_ediv_of_nonneg _ (by omega),
      Int.ediv_lt_iff_lt_mul (by omega), Int.mul_neg]
    omega

/-- Up to the first value beyond the bound nothing overflows, if a step from the bound does not. -/
theorem toInt_valueAfter (hlow : -2 ^ 31 ≤ head.bound.toInt + head.step.toInt)
    (hhigh : head.bound.toInt + head.step.toInt < 2 ^ 31)
    (hbefore : ∀ k < n, ¬ head.Beyond (head.reach k)) :
    (head.valueAfter n).toInt = head.reach n := by
  have hstart := And.intro head.start.le_toInt head.start.toInt_lt
  cases n with
  | zero => rw [valueAfter_zero, reach_zero]
  | succ n =>
    -- The value before is between the start and the bound.
    have hlast := hbefore n n.lt_succ_self
    have hmul : 0 ≤ head.step.toInt → 0 ≤ n * head.step.toInt :=
      fun hup => Int.mul_nonneg (Int.natCast_nonneg n) hup
    have hmul' : ¬ 0 ≤ head.step.toInt → n * head.step.toInt ≤ 0 := fun hdown =>
      Int.mul_nonpos_of_nonneg_of_nonpos (Int.natCast_nonneg n) (by omega)
    rw [Beyond] at hlast
    rw [valueAfter]
    apply Int32.toInt_ofInt_of_le
    all_goals
      rw [reach_succ]
      rw [reach] at hlast ⊢
      split at hlast
      · next hup =>
        have hnonneg := hmul hup
        omega
      · next hdown =>
        have hnonpos := hmul' hdown
        omega

/-- **How many passes there are.** If a step from the bound fits in 32 bits, the counter is first
beyond the bound after as many passes as the steps from the start to the bound, rounded down, and
one more. -/
theorem isLeast_passes (hstep : head.step ≠ 0)
    (hlow : -2 ^ 31 ≤ head.bound.toInt + head.step.toInt)
    (hhigh : head.bound.toInt + head.step.toInt < 2 ^ 31) :
    IsLeast {n | head.pastAfter n = true} head.passes := by
  have hbefore : ∀ k < head.passes, ¬ head.Beyond (head.reach k) := by
    intro k hk
    rw [beyond_reach_iff hstep]
    rw [passes] at hk
    omega
  have hexact : ∀ n ≤ head.passes, (head.valueAfter n).toInt = head.reach n := fun n hn =>
    toInt_valueAfter hlow hhigh fun k hk => hbefore k (by omega)
  constructor
  · show head.pastAfter head.passes = true
    rw [pastAfter_iff, hexact _ (Nat.le_refl _), beyond_reach_iff hstep, passes]
    omega
  · intro n hn
    by_contra hless
    rw [not_le] at hless
    change head.pastAfter n = true at hn
    rw [pastAfter_iff, hexact n (Nat.le_of_lt hless)] at hn
    exact hbefore n hless hn

end LoopHead

end NovelScript
