import Mathlib.Logic.Function.Iterate
import Mathlib.Order.Bounds.Defs
import NovelScript.Proofs.Script.LoopEnd

/-!
# Which end of a loop the search finds

The search for the end of a loop goes over the statements of a script one after another and counts
the loops that it sees beginning and ending. Every statement takes at least one byte, so that it
comes to the end of the script unless it stops before. It stops at the first end of a loop in front
of which as many loops have ended as have begun.
-/

namespace NovelScript.Script

variable {s : Script} {addr depth n : Nat}

/-! ## The statements that the search goes over -/

/-- Where the search goes on after the statement at an address. -/
def searchNext (s : Script) (addr : Nat) : Nat :=
  s.passOver (s.statementAt addr false)

/-- The name of the command at an address, if there is one. -/
def word? (s : Script) (addr : Nat) : Option String :=
  match (s.statementAt addr false).kind with
  | .command word => some word.name
  | _ => none

/-- The names of the commands among the first `n` statements from an address on. -/
def wordsPassed (s : Script) : (n addr : Nat) → List String
  | 0, _ => []
  | n + 1, addr => (s.word? addr).toList ++ wordsPassed s n (s.searchNext addr)

/-- The search is at the end of the script. -/
def AtScriptEnd (s : Script) (addr : Nat) : Prop :=
  (s.statementAt addr false).kind = .endOfScript

instance (s : Script) (addr : Nat) : Decidable (s.AtScriptEnd addr) :=
  inferInstanceAs (Decidable (_ = _))

private theorem lt_searchNext (h : ¬ s.AtScriptEnd addr) : addr < s.searchNext addr :=
  lt_passOver h

private theorem lt_size_of_not_atScriptEnd (h : ¬ s.AtScriptEnd addr) : addr < s.size := by
  have hinside : s.searchNext addr ≤ s.size := by
    have hbounds := s.statementAt_le_size addr false
    rw [searchNext, passOver]
    split
    · exact skipStatement_le_size false hbounds.2
    · exact s.lineEnd_le_size _
    · exact hbounds.2
  exact Nat.lt_of_lt_of_le (lt_searchNext h) hinside

/-- At the end of the script the search stays. -/
theorem AtScriptEnd.searchNext (h : s.AtScriptEnd addr) : s.AtScriptEnd (s.searchNext addr) := by
  have hnext : (s.statementAt addr false).next = s.skipSeparators (min addr s.size) := by
    revert h
    rw [AtScriptEnd, statementAt]
    split
    · exact fun _ => rfl
    · split_ifs <;> intro h <;> simp [kind_tagAt, commandAt] at h
  have hsame : s.skipSeparators (min (s.searchNext addr) s.size) =
      s.skipSeparators (min addr s.size) := by
    have hinside := (s.statementAt_le_size addr false).2
    rw [Script.searchNext, passOver, show (s.statementAt addr false).kind = _ from h]
    dsimp only
    rw [Nat.min_eq_left hinside, hnext]
    exact advanceWhile_advanceWhile s _ _
  rw [AtScriptEnd, statementAt_congr hsame]
  exact h

private theorem AtScriptEnd.word? (h : s.AtScriptEnd addr) : s.word? addr = none := by
  rw [Script.word?, show (s.statementAt addr false).kind = _ from h]

/-- The search comes to the end of every script. -/
theorem exists_atScriptEnd (s : Script) (addr : Nat) :
    ∃ n, s.AtScriptEnd (s.searchNext^[n] addr) := by
  by_cases hend : s.AtScriptEnd addr
  · exact ⟨0, hend⟩
  · have hprogress := lt_searchNext hend
    have hinside := lt_size_of_not_atScriptEnd hend
    obtain ⟨n, hn⟩ := exists_atScriptEnd s (s.searchNext addr)
    exact ⟨n + 1, hn⟩
termination_by s.size - addr

/-! ## The end that is found -/

/-- After `n` statements the search comes to the end of a loop, and `depth` more loops have ended
on the way than have begun. -/
def EndsLoop (s : Script) (depth addr n : Nat) : Prop :=
  s.word? (s.searchNext^[n] addr) = some "next" ∧
    (s.wordsPassed n addr).count "next" = (s.wordsPassed n addr).count "for" + depth

/-- The end of a loop that the search comes to after `n` statements. -/
def loopEndAfter (s : Script) (addr n : Nat) : LoopEnd where
  start := (s.statementAt (s.searchNext^[n] addr) false).start
  after := s.searchNext^[n + 1] addr

private theorem endsLoop_zero :
    s.EndsLoop depth addr 0 ↔ s.word? addr = some "next" ∧ depth = 0 := by
  simp [EndsLoop, wordsPassed, eq_comm]

/-- A loop that begins has to end first. -/
theorem endsLoop_succ_of_for (h : s.word? addr = some "for") :
    s.EndsLoop depth addr (n + 1) ↔ s.EndsLoop (depth + 1) (s.searchNext addr) n := by
  simp [EndsLoop, wordsPassed, h, Nat.add_assoc, Nat.add_comm]

/-- One of the loops that had to end first has ended. -/
theorem endsLoop_succ_of_next (h : s.word? addr = some "next") :
    s.EndsLoop (depth + 1) addr (n + 1) ↔ s.EndsLoop depth (s.searchNext addr) n := by
  simp [EndsLoop, wordsPassed, h]
  omega

/-- Other statements do not matter. -/
theorem endsLoop_succ_of_ne (hfor : s.word? addr ≠ some "for")
    (hnext : s.word? addr ≠ some "next") :
    s.EndsLoop depth addr (n + 1) ↔ s.EndsLoop depth (s.searchNext addr) n := by
  cases hword : s.word? addr with
  | none => simp [EndsLoop, wordsPassed, hword]
  | some name =>
    have hneFor : name ≠ "for" := fun h => hfor (h ▸ hword)
    have hneNext : name ≠ "next" := fun h => hnext (h ▸ hword)
    simp [EndsLoop, wordsPassed, hword, hneFor, hneNext]

/-- One statement of the search. -/
theorem loopEndWithin_succ (s : Script) (statements depth addr : Nat) :
    s.loopEndWithin (statements + 1) depth addr =
      if s.AtScriptEnd addr then none
      else if s.word? addr = some "for" then
        s.loopEndWithin statements (depth + 1) (s.searchNext addr)
      else if s.word? addr = some "next" then
        match depth with
        | 0 => some (s.loopEndAfter addr 0)
        | depth + 1 => s.loopEndWithin statements depth (s.searchNext addr)
      else s.loopEndWithin statements depth (s.searchNext addr) := by
  rw [loopEndWithin]
  split
  · next hkind => rw [if_pos (show s.AtScriptEnd addr from hkind)]
  · next word hkind =>
    have hend : ¬ s.AtScriptEnd addr := by simp [AtScriptEnd, hkind]
    have hword : s.word? addr = some word.name := by rw [word?, hkind]
    have hnext : s.skipStatement false (s.statementAt addr false).next = s.searchNext addr := by
      rw [searchNext, passOver, hkind]
    rw [if_neg hend, hword, hnext]
    simp only [Option.some.injEq]
    rfl
  · next hkind =>
    have hend : ¬ s.AtScriptEnd addr := by simp [AtScriptEnd, hkind]
    have hword : s.word? addr = none := by rw [word?, hkind]
    have hnext : s.lineEnd (s.statementAt addr false).start = s.searchNext addr := by
      rw [searchNext, passOver, hkind]
    rw [if_neg hend, hword, hnext]
    simp
  · next hkind hcommand htext =>
    have hend : ¬ s.AtScriptEnd addr := hkind
    have hword : s.word? addr = none := by
      rw [word?]
      split
      · next word hkind => exact absurd hkind (hcommand word)
      · rfl
    have hnext : (s.statementAt addr false).next = s.searchNext addr := by
      rw [searchNext, passOver]
      split
      · next word hkind => exact absurd hkind (hcommand word)
      · next hkind => exact absurd hkind htext
      · rfl
    rw [if_neg hend, hword, hnext]
    simp

/-- What the search from an address finds: the first end of a loop in front of which enough loops
have ended, or nothing if there is none. -/
inductive SearchResult (s : Script) (depth addr : Nat) : Option LoopEnd → Prop where
  /-- There is one. -/
  | found {n : Nat} (h : IsLeast {n | s.EndsLoop depth addr n} n) :
    SearchResult s depth addr (some (s.loopEndAfter addr n))
  /-- There is none. -/
  | missing (h : ∀ n, ¬ s.EndsLoop depth addr n) : SearchResult s depth addr none

/-- A statement that the search passes over. -/
theorem SearchResult.pass {depth' : Nat} {result : Option LoopEnd}
    (hzero : ¬ s.EndsLoop depth addr 0)
    (hsucc : ∀ n, s.EndsLoop depth addr (n + 1) ↔ s.EndsLoop depth' (s.searchNext addr) n)
    (h : s.SearchResult depth' (s.searchNext addr) result) : s.SearchResult depth addr result := by
  cases h with
  | @found n h =>
    refine .found (n := n + 1) ⟨(hsucc n).mpr h.1, fun k hk => ?_⟩
    cases k with
    | zero => exact absurd hk hzero
    | succ k => exact Nat.succ_le_succ (h.2 ((hsucc k).mp hk))
  | missing h =>
    refine .missing fun n hn => ?_
    cases n with
    | zero => exact hzero hn
    | succ n => exact h n ((hsucc n).mp hn)

/-- At the end of the script there is none. -/
theorem SearchResult.ofAtScriptEnd (h : s.AtScriptEnd addr) : s.SearchResult depth addr none := by
  have hstays : ∀ n, s.AtScriptEnd (s.searchNext^[n] addr) := fun n => by
    induction n with
    | zero => exact h
    | succ n ih =>
      rw [Function.iterate_succ_apply']
      exact ih.searchNext
  refine .missing fun n hn => ?_
  rw [EndsLoop, (hstays n).word?] at hn
  cases hn.1

/-- A search that may go over as many statements as there are bytes left has the right result. -/
theorem searchResult_loopEndWithin {statements : Nat} (hbytes : s.size - addr < statements) :
    s.SearchResult depth addr (s.loopEndWithin statements depth addr) := by
  induction statements generalizing depth addr with
  | zero => exact absurd hbytes (Nat.not_lt_zero _)
  | succ statements ih =>
    rw [loopEndWithin_succ]
    by_cases hend : s.AtScriptEnd addr
    · rw [if_pos hend]
      exact .ofAtScriptEnd hend
    rw [if_neg hend]
    have hleft : s.size - s.searchNext addr < statements := by
      have hprogress := lt_searchNext hend
      have hinside := lt_size_of_not_atScriptEnd hend
      omega
    by_cases hfor : s.word? addr = some "for"
    · rw [if_pos hfor]
      refine .pass ?_ (fun n => endsLoop_succ_of_for hfor) (ih hleft)
      simp [endsLoop_zero, hfor]
    rw [if_neg hfor]
    by_cases hnext : s.word? addr = some "next"
    · rw [if_pos hnext]
      cases depth with
      | zero => exact .found ⟨endsLoop_zero.mpr ⟨hnext, rfl⟩, fun _ _ => Nat.zero_le _⟩
      | succ depth =>
        refine .pass ?_ (fun n => endsLoop_succ_of_next hnext) (ih hleft)
        simp [endsLoop_zero]
    · rw [if_neg hnext]
      refine .pass ?_ (fun n => endsLoop_succ_of_ne hfor hnext) (ih hleft)
      simp [endsLoop_zero, hnext]

/-- **The search finds the first end of a loop in front of which as many loops have ended as have
begun**, and it fails only if there is none. -/
theorem loopEnd_eq_ok_iff {found : LoopEnd} : s.loopEnd addr = .ok found ↔
    ∃ n, IsLeast {n | s.EndsLoop 0 addr n} n ∧ found = s.loopEndAfter addr n := by
  have hresult : s.SearchResult 0 addr (s.loopEndWithin (s.size - addr + 1) 0 addr) :=
    searchResult_loopEndWithin (Nat.lt_succ_self _)
  rw [loopEnd]
  generalize s.loopEndWithin (s.size - addr + 1) 0 addr = result at hresult
  cases hresult with
  | @found n h =>
    constructor
    · rintro ⟨⟩
      exact ⟨n, h, rfl⟩
    · rintro ⟨k, hk, rfl⟩
      rw [Nat.le_antisymm (h.2 hk.1) (hk.2 h.1)]
  | missing h =>
    constructor
    · rintro ⟨⟩
    · rintro ⟨n, hn, -⟩
      exact absurd hn.1 (h n)

end NovelScript.Script
