import NovelScript.Proofs.Expression.Numerals
import NovelScript.Proofs.Script.Bounds
import NovelScript.Proofs.Script.Locality

/-!
# The same text at two places

The scans over numbers, names and blanks look at nothing but bytes that an expression may hold. So
where the same bytes stand at two places, and what follows them at either place is no such byte, all
these scans find the same in both and stop at the same byte of the text.
-/

namespace NovelScript

namespace Byte

/-- A byte that an expression, a name or a reference may hold. -/
def inExpression (b : UInt8) : Bool :=
  isBlank b || isNameByte b || isSigil b ||
    [leftParen, rightParen, leftBracket, rightBracket, plus, minus, asterisk, slash].contains b

/-- A blank may stand in an expression. -/
theorem inExpression_of_isBlank {b : UInt8} (h : isBlank b = true) : inExpression b = true := by
  rw [inExpression, h, Bool.true_or, Bool.true_or, Bool.true_or]

/-- A byte of a name may stand in an expression. -/
theorem inExpression_of_isNameByte {b : UInt8} (h : isNameByte b = true) :
    inExpression b = true := by
  rw [inExpression, h, Bool.or_true, Bool.true_or, Bool.true_or]

/-- A digit may stand in an expression. -/
theorem inExpression_of_isDigit {b : UInt8} (h : isDigit b = true) : inExpression b = true := by
  refine inExpression_of_isNameByte ?_
  rw [isNameByte, h, Bool.or_true, Bool.true_or]

/-- A sigil may stand in an expression. -/
theorem inExpression_of_isSigil {b : UInt8} (h : isSigil b = true) : inExpression b = true := by
  rw [inExpression, h, Bool.or_true, Bool.true_or]

/-- An expression stays on its line. -/
theorem inline_of_inExpression {b : UInt8} (h : inExpression b = true) : Inline b := by
  simp only [inExpression, Bool.or_eq_true, List.contains_iff_mem] at h
  rcases h with ((hblank | hname) | hsigil) | hmark
  · exact inline_of_isBlank hblank
  · exact inline_of_isNameByte hname
  · simp only [isSigil, Bool.or_eq_true, beq_iff_eq] at hsigil
    rcases hsigil with (rfl | rfl) | rfl <;> decide
  · exact inline_of_all (by decide) b hmark

end Byte

namespace Script

/-- The same `n` bytes stand at two places, and neither time a byte follows that an expression may
hold. -/
structure SameText (s t : Script) (x y n : Nat) : Prop where
  /-- The bytes. -/
  byte : ∀ j < n, t.byte? (y + j) = s.byte? (x + j)
  /-- What follows at the first place. -/
  left : s.holdsAt (x + n) Byte.inExpression = false
  /-- What follows at the second place. -/
  right : t.holdsAt (y + n) Byte.inExpression = false
  /-- The first text is a part of its script. -/
  leftSize : x + n ≤ s.size
  /-- So is the second one. -/
  rightSize : y + n ≤ t.size

/-- A whole script is the same text as itself. -/
theorem SameText.refl (s : Script) : s.SameText s 0 0 s.size where
  byte _ _ := rfl
  left := by simp [holdsAt, byte?, size]
  right := by simp [holdsAt, byte?, size]
  leftSize := Nat.le_of_eq (Nat.zero_add s.size)
  rightSize := Nat.le_of_eq (Nat.zero_add s.size)

/-- No byte that an expression may hold is next. -/
def EndsExpression (rest : Bytes) : Prop :=
  ∀ b ∈ rest.head?, Byte.inExpression b = false

private theorem EndsExpression.holdsAt {s : Script} {pos : Nat} (h : EndsExpression (s.ahead pos)) :
    s.holdsAt pos Byte.inExpression = false := by
  rw [holdsAt_eq, ← Bool.not_eq_true, Option.any_eq_true]
  rintro ⟨b, hb, hin⟩
  rw [h b hb] at hin
  cases hin

variable {s t : Script} {x y n j : Nat} {text rest rest' : Bytes}

/-- No expression goes on where a statement ends. -/
theorem endsExpression_of_atStatementEnd (h : s.atStatementEnd x = true) :
    EndsExpression (s.ahead x) := by
  intro b hb
  rw [← byte?_eq_head?, Option.mem_def] at hb
  rw [atStatementEnd, hb] at h
  simp only [Bool.or_eq_true, beq_iff_eq] at h
  rcases h with (rfl | rfl) | rfl <;> decide

private theorem le_size_of_ahead (h : s.ahead x = text ++ rest) (hx : x ≤ s.size) :
    x + text.length ≤ s.size := by
  have hlength := congrArg List.length h
  rw [length_ahead, List.length_append] at hlength
  omega

/-- The bytes of a text that stands at a place. -/
theorem byte?_add_of_ahead (h : s.ahead x = text ++ rest) (hj : j < text.length) :
    s.byte? (x + j) = text[j]? := by
  rw [byte?_eq_head?, ahead_add, h, List.head?_drop, List.getElem?_append_left hj]

/-- Scripts that hold the same expression, each followed by its end, have the same text there. -/
theorem sameText_of_ahead (hs : s.ahead x = text ++ rest) (ht : t.ahead y = text ++ rest')
    (hrest : EndsExpression rest) (hrest' : EndsExpression rest') (hx : x ≤ s.size) (hy : y ≤ t.size) :
    SameText s t x y text.length where
  byte j hj := (byte?_add_of_ahead ht hj).trans (byte?_add_of_ahead hs hj).symm
  left := EndsExpression.holdsAt (by rwa [ahead_add_length hs])
  right := EndsExpression.holdsAt (by rwa [ahead_add_length ht])
  leftSize := le_size_of_ahead hs hx
  rightSize := le_size_of_ahead ht hy

/-- Where the predicate does not hold, nothing is passed over. -/
theorem advanceWhile_eq_self {p : UInt8 → Bool} (h : s.holdsAt x p = false) :
    s.advanceWhile p x = x := by
  rw [advanceWhile]
  split
  · next hlt =>
    rw [holdsAt, byte?, Array.getElem?_eq_getElem hlt, Option.any_some] at h
    rw [h, if_neg Bool.false_ne_true]
  · rfl

/-- Blanks that are passed leave no blank to pass. -/
theorem skipBlanks_skipBlanks (s : Script) (pos : Nat) :
    s.skipBlanks (s.skipBlanks pos) = s.skipBlanks pos :=
  s.advanceWhile_advanceWhile Byte.isBlank pos

namespace SameText

variable (h : SameText s t x y n)
include h

/-- Where nothing is left of the text, no predicate on bytes of expressions holds. -/
theorem holdsAt_stop {p : UInt8 → Bool} (hp : ∀ b, p b = true → Byte.inExpression b = true) :
    s.holdsAt (x + n) p = false ∧ t.holdsAt (y + n) p = false := by
  have hnot : ∀ {u : Script} {pos}, u.holdsAt pos Byte.inExpression = false →
      u.holdsAt pos p = false := by
    intro u pos hstop
    rw [← Bool.not_eq_true, holdsAt, Option.any_eq_true]
    rintro ⟨b, hb, hpb⟩
    rw [holdsAt, hb, Option.any_some, hp b hpb] at hstop
    cases hstop
  exact ⟨hnot h.left, hnot h.right⟩

/-- A predicate on bytes of expressions holds at both places or at none, and only inside the
text. -/
theorem holdsAt {p : UInt8 → Bool} (hp : ∀ b, p b = true → Byte.inExpression b = true)
    (hj : j ≤ n) :
    t.holdsAt (y + j) p = s.holdsAt (x + j) p ∧ (s.holdsAt (x + j) p = true → j < n) := by
  rcases Nat.lt_or_eq_of_le hj with hlt | rfl
  · exact ⟨by rw [Script.holdsAt, Script.holdsAt, h.byte j hlt], fun _ => hlt⟩
  · obtain ⟨hs, ht⟩ := h.holdsAt_stop hp
    refine ⟨ht.trans hs.symm, fun hholds => ?_⟩
    rw [hs] at hholds
    cases hholds

/-- So does a byte that an expression may hold. -/
theorem isAt {b : UInt8} (hb : Byte.inExpression b = true) (hj : j ≤ n) :
    t.isAt (y + j) b = s.isAt (x + j) b ∧ (s.isAt (x + j) b = true → j < n) := by
  have hisAt : ∀ (u : Script) (pos : Nat), u.holdsAt pos (· == b) = u.isAt pos b := by
    intro u pos
    rw [Script.holdsAt, Script.isAt]
    cases u.byte? pos with
    | none => rfl
    | some c => rfl
  have hholds := h.holdsAt (fun c hc => (beq_iff_eq.mp hc).symm ▸ hb : ∀ c, (c == b) = true → _) hj
  rwa [hisAt, hisAt] at hholds

/-- A scan stops at the same byte. -/
theorem advanceWhile {p : UInt8 → Bool} (hp : ∀ b, p b = true → Byte.inExpression b = true)
    (hj : j ≤ n) :
    ∃ k, j ≤ k ∧ k ≤ n ∧ s.advanceWhile p (x + j) = x + k ∧ t.advanceWhile p (y + j) = y + k := by
  -- Every byte that is passed over leaves less of the text.
  induction hleft : n - j generalizing j with
  | zero =>
    obtain rfl : j = n := by omega
    obtain ⟨hs, ht⟩ := h.holdsAt_stop hp
    exact ⟨j, Nat.le_refl j, hj, advanceWhile_eq_self hs, advanceWhile_eq_self ht⟩
  | succ left ih =>
    obtain ⟨hsame, hlt⟩ := h.holdsAt hp hj
    cases hholds : s.holdsAt (x + j) p with
    | false =>
      rw [hholds] at hsame
      exact ⟨j, Nat.le_refl j, hj, advanceWhile_eq_self hholds, advanceWhile_eq_self hsame⟩
    | true =>
      rw [hholds] at hsame
      obtain ⟨k, hjk, hkn, hs, ht⟩ := ih (show j + 1 ≤ n from hlt hholds) (by omega)
      obtain ⟨b, hb, hpb⟩ := (Option.any_eq_true _ _).mp hholds
      obtain ⟨c, hc, hpc⟩ := (Option.any_eq_true _ _).mp hsame
      refine ⟨k, by omega, hkn, ?_, ?_⟩
      · rw [advanceWhile_of_byte? hb, if_pos hpb]
        exact hs
      · rw [advanceWhile_of_byte? hc, if_pos hpc]
        exact ht

/-- What was passed over is the same. -/
theorem slice {k : Nat} (hjk : j ≤ k) (hkn : k ≤ n) :
    t.slice (y + j) (y + k) = s.slice (x + j) (x + k) := by
  obtain ⟨m, rfl⟩ := Nat.exists_eq_add_of_le hjk
  rw [← Nat.add_assoc, ← Nat.add_assoc, slice_eq_take, slice_eq_take]
  apply List.ext_getElem?
  intro i
  rw [List.getElem?_take, List.getElem?_take]
  split
  · next hi =>
    have hbyte : ∀ (u : Script) (pos : Nat), (u.ahead pos)[i]? = u.byte? (pos + i) := by
      intro u pos
      rw [byte?_eq_head?, ahead_add, List.head?_drop]
    rw [hbyte, hbyte, Nat.add_assoc, Nat.add_assoc]
    exact h.byte (j + i) (by omega)
  · rfl

/-- A token of bytes of expressions stands at both places or at none. -/
theorem startsWith {token : Bytes} (htoken : ∀ b ∈ token, Byte.inExpression b = true) (hj : j ≤ n) :
    t.startsWith token (y + j) = s.startsWith token (x + j) ∧
      (s.startsWith token (x + j) = true → j + token.length ≤ n) := by
  induction token generalizing j with
  | nil => exact ⟨rfl, fun _ => hj⟩
  | cons b token ih =>
    obtain ⟨hb, hrest⟩ := List.forall_mem_cons.mp htoken
    obtain ⟨hsame, hlt⟩ := h.isAt hb hj
    rw [Script.startsWith, Script.startsWith, hsame]
    cases hat : s.isAt (x + j) b with
    | false => exact ⟨rfl, fun hfalse => absurd hfalse (by simp)⟩
    | true =>
      obtain ⟨hsame', hle⟩ := ih hrest (hlt hat)
      rw [Bool.true_and, Bool.true_and, List.length_cons]
      exact ⟨hsame', fun hstarts => by have := hle hstarts; omega⟩

/-- So does a word of name bytes, in any case of its letters. -/
theorem startsWithWord {word : Bytes} (hword : ∀ b ∈ word, Byte.isNameByte b = true) (hj : j ≤ n) :
    t.startsWithWord word (y + j) = s.startsWithWord word (x + j) ∧
      (s.startsWithWord word (x + j) = true → j + word.length ≤ n) := by
  induction word generalizing j with
  | nil => exact ⟨rfl, fun _ => hj⟩
  | cons b word ih =>
    obtain ⟨hb, hrest⟩ := List.forall_mem_cons.mp hword
    have hletter : ∀ c, (Byte.lower c == Byte.lower b) = true → Byte.inExpression c = true := by
      intro c hc
      refine Byte.inExpression_of_isNameByte ?_
      rw [← Byte.isNameByte_lower, beq_iff_eq.mp hc, Byte.isNameByte_lower, hb]
    obtain ⟨hsame, hlt⟩ := h.holdsAt hletter hj
    rw [Script.startsWithWord, Script.startsWithWord, hsame]
    cases hat : s.holdsAt (x + j) fun c => Byte.lower c == Byte.lower b with
    | false => exact ⟨rfl, fun hfalse => absurd hfalse (by simp)⟩
    | true =>
      obtain ⟨hsame', hle⟩ := ih hrest (hlt hat)
      rw [Bool.true_and, Bool.true_and, List.length_cons]
      exact ⟨hsame', fun hstarts => by have := hle hstarts; omega⟩

/-- A name stands at both places, or at none. -/
theorem name? (hj : j ≤ n) :
    (s.name? (x + j) = none ∧ t.name? (y + j) = none) ∨
      ∃ name k, j ≤ k ∧ k ≤ n ∧ s.name? (x + j) = some (name, x + k) ∧
        t.name? (y + j) = some (name, y + k) := by
  have hstart : ∀ b, Byte.isNameStart b = true → Byte.inExpression b = true := fun b hb =>
    Byte.inExpression_of_isNameByte (Byte.isNameByte_of_isNameStart hb)
  have hsame := (h.holdsAt hstart hj).1
  rw [Script.name?, Script.name?, hsame]
  cases s.holdsAt (x + j) Byte.isNameStart with
  | false => exact .inl ⟨rfl, rfl⟩
  | true =>
    obtain ⟨k, hjk, hkn, hs, ht⟩ :=
      h.advanceWhile (fun _ => Byte.inExpression_of_isNameByte) hj
    refine .inr ⟨(s.slice (x + j) (x + k)).toName, k, hjk, hkn, ?_, ?_⟩
    · simp only [hs, if_true]
    · simp only [ht, if_true, h.slice hjk hkn]

/-- Blanks are passed over alike. -/
theorem skipBlanks (hj : j ≤ n) :
    ∃ k, j ≤ k ∧ k ≤ n ∧ s.skipBlanks (x + j) = x + k ∧ t.skipBlanks (y + j) = y + k :=
  h.advanceWhile (fun _ => Byte.inExpression_of_isBlank) hj

end SameText

end Script

end NovelScript
