/-!
# Chance

Where random numbers come from. How they are made is left open: a random source answers each
question with a number between the bounds that it is asked for, and may depend on all questions
before. A generator that starts from a seed is such a source, and so is one that nobody can foresee.
-/

namespace NovelScript

/-- A source of random numbers. -/
structure RandomSource where
  /-- The number between `low` and `high`; `earlier` are the bounds of the numbers before, the last
  ones first. -/
  choose : (earlier : List (Int32 × Int32)) → (low high : Int32) → Int32
  /-- The number is within the bounds. -/
  choose_mem : ∀ (earlier : List (Int32 × Int32)) {low high : Int32}, low ≤ high →
    low ≤ choose earlier low high ∧ choose earlier low high ≤ high

namespace RandomSource

/-- Scrambles 64 bits, by the constants of SplitMix64. -/
def scramble (state : UInt64) : UInt64 :=
  let first := (state ^^^ (state >>> 30)) * 0xbf58476d1ce4e5b9
  let second := (first ^^^ (first >>> 27)) * 0x94d049bb133111eb
  second ^^^ (second >>> 31)

/-- A remainder that is counted from the lower bound is within the bounds. -/
private theorem ofInt_add_mem {low high : Int32} (h : low ≤ high) (n : Nat) :
    let chosen := Int32.ofInt (low.toInt + (n % ((high.toInt - low.toInt).toNat + 1) : Nat))
    low ≤ chosen ∧ chosen ≤ high := by
  have hle : low.toInt ≤ high.toInt := Int32.le_iff_toInt_le.mp h
  have hrest := Nat.mod_lt n (Nat.succ_pos (high.toInt - low.toInt).toNat)
  have hlow := Int32.le_toInt low
  have hhigh := Int32.toInt_lt high
  generalize n % ((high.toInt - low.toInt).toNat + 1) = rest at hrest
  have hchosen : (Int32.ofInt (low.toInt + rest)).toInt = low.toInt + rest :=
    Int32.toInt_ofInt_of_le (by omega) (by omega)
  dsimp only
  rw [Int32.le_iff_toInt_le, Int32.le_iff_toInt_le, hchosen]
  omega

/-- A source for a seed. Equal seeds give equal numbers. -/
def splitMix (seed : Nat) : RandomSource where
  choose earlier low high :=
    let state := UInt64.ofNat seed + UInt64.ofNat (earlier.length + 1) * 0x9e3779b97f4a7c15
    let count := (high.toInt - low.toInt).toNat + 1
    Int32.ofInt (low.toInt + ((scramble state).toNat % count : Nat))
  choose_mem _ _ _ h := ofInt_add_mem h _

end RandomSource

/-- A source of random numbers that is being used. -/
structure Chance where
  /-- The source. -/
  source : RandomSource
  /-- The bounds of the numbers that were drawn so far, the last ones first. -/
  asked : List (Int32 × Int32) := []

namespace Chance

/-- The source for a seed. -/
def ofSeed (seed : Nat) : Chance :=
  { source := .splitMix seed }

/-- A number between two bounds, and the source after it. -/
def draw (chance : Chance) (low high : Int32) : Int32 × Chance :=
  (chance.source.choose chance.asked low high,
    { chance with asked := (low, high) :: chance.asked })

/-- A number `n` with `0 ≤ n < upper`; zero if `upper` is not positive. -/
def below (chance : Chance) (upper : Int32) : Int32 × Chance :=
  if upper ≤ 0 then (0, chance) else chance.draw 0 (upper - 1)

/-- A number between two bounds, both included, that may be given in either order. -/
def between (chance : Chance) (a b : Int32) : Int32 × Chance :=
  if a ≤ b then chance.draw a b else chance.draw b a

/-- The source is used on. -/
theorem source_below (chance : Chance) (upper : Int32) :
    (chance.below upper).2.source = chance.source := by
  rw [below]
  split <;> rfl

/-- So it is for a number between two bounds. -/
theorem source_between (chance : Chance) (a b : Int32) :
    (chance.between a b).2.source = chance.source := by
  rw [between]
  split <;> rfl

/-- The number is below a positive bound. -/
theorem below_mem (chance : Chance) {upper : Int32} (h : 0 < upper) :
    0 ≤ (chance.below upper).1 ∧ (chance.below upper).1 < upper := by
  have hpositive : 0 < upper.toInt := Int32.lt_iff_toInt_lt.mp h
  have hupper := Int32.toInt_lt upper
  have hlast : (upper - 1).toInt = upper.toInt - 1 := by
    rw [Int32.toInt_sub, show (1 : Int32).toInt = 1 from rfl]
    exact Int.bmod_eq_of_le (by omega) (by omega)
  have hzero : (0 : Int32) ≤ upper - 1 := by
    rw [Int32.le_iff_toInt_le, hlast]
    exact Int.le_sub_one_of_lt hpositive
  obtain ⟨hleast, hmost⟩ := chance.source.choose_mem chance.asked hzero
  rw [Int32.le_iff_toInt_le, hlast] at hmost
  rw [below, if_neg (Int32.not_le.mpr h), Int32.lt_iff_toInt_lt]
  exact ⟨hleast, Int.lt_of_le_sub_one hmost⟩

/-- The number is between the bounds, in whichever order they are given. -/
theorem between_mem (chance : Chance) (a b : Int32) :
    (a ≤ (chance.between a b).1 ∧ (chance.between a b).1 ≤ b) ∨
      (b ≤ (chance.between a b).1 ∧ (chance.between a b).1 ≤ a) := by
  rw [between]
  split
  · next h => exact .inl (chance.source.choose_mem chance.asked h)
  · next h =>
    have hle : b ≤ a := (Int32.le_total a b).resolve_left h
    exact .inr (chance.source.choose_mem chance.asked hle)

end Chance

end NovelScript
