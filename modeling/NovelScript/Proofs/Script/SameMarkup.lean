import NovelScript.Proofs.Operand.Literals

/-!
# Lines with the same markup

Two lines of the double-byte encoding have the same markup if they are the same but for characters
of two bytes, which stand at the same places in both. The second byte of such a character may look
like any mark. But all scans test a byte only where a character begins, and a first byte looks like
no mark.
-/

namespace NovelScript

namespace Text.ShiftJis

/-- A lead byte is not ASCII. -/
theorem not_ascii_of_isLead {b : UInt8} (h : isLead b = true) : ¬ b < 0x80 := fun hascii => by
  rw [isLead_ascii hascii] at h
  cases h

/-- A first byte satisfies no predicate on ASCII bytes. -/
theorem eq_false_of_isLead {p : UInt8 → Bool} (hp : ∀ b, p b = true → b < 0x80) {b : UInt8}
    (hlead : isLead b = true) : p b = false := by
  rw [← Bool.not_eq_true]
  exact fun hholds => not_ascii_of_isLead hlead (hp b hholds)

/-- A lead byte is no sign of the markup. -/
theorem beq_eq_false_of_isLead {b sign : UInt8} (hlead : isLead b = true) (hsign : sign < 0x80) :
    (b == sign) = false :=
  eq_false_of_isLead (p := (· == sign)) (fun _ hc => beq_iff_eq.mp hc ▸ hsign) hlead

end Text.ShiftJis

/-- Two texts are the same up to the end of their lines, but for characters of two bytes, which
stand at the same places and are special in both texts or in none. No character of the lines is a
backquote. -/
inductive Bytes.SameMarkup (special : Bytes → Bool) : Bytes → Bytes → Prop
  /-- Nothing more. -/
  | finish : SameMarkup special [] []
  /-- The end of the lines. What follows does not matter. -/
  | newline {rest rest' : Bytes} :
      SameMarkup special (Byte.newline :: rest) (Byte.newline :: rest')
  /-- The same character of one byte. -/
  | single {b : UInt8} {rest rest' : Bytes} (hsingle : Text.ShiftJis.isLead b = false)
      (hnewline : b ≠ Byte.newline) (hbackquote : b ≠ Byte.backquote)
      (h : SameMarkup special rest rest') : SameMarkup special (b :: rest) (b :: rest')
  /-- Two characters of two bytes. -/
  | double {lead trail lead' trail' : UInt8} {rest rest' : Bytes}
      (hlead : Text.ShiftJis.isLead lead = true) (hlead' : Text.ShiftJis.isLead lead' = true)
      (hspecial : special [lead', trail'] = special [lead, trail])
      (h : SameMarkup special rest rest') :
      SameMarkup special (lead :: trail :: rest) (lead' :: trail' :: rest')

namespace Script

/-- The rests of two lines, from the same address on, have the same markup. -/
structure SameMarkup (s t : Script) (special : Bytes → Bool) (pos : Nat) : Prop where
  /-- The first script is in the double-byte encoding. -/
  leftEncoding : s.encoding = .shiftJis
  /-- So is the second one. -/
  rightEncoding : t.encoding = .shiftJis
  /-- It is an address of the first script. -/
  leftSize : pos ≤ s.size
  /-- It is an address of the second one. -/
  rightSize : pos ≤ t.size
  /-- The rests of the lines. -/
  text : Bytes.SameMarkup special (s.ahead pos) (t.ahead pos)

namespace SameMarkup

variable {s t : Script} {special : Bytes → Bool} {pos : Nat} {b : UInt8}

/-- What comes next in two lines with the same markup. -/
inductive Next (s t : Script) (special : Bytes → Bool) (pos : Nat) : Prop
  /-- Nothing. -/
  | finish (hs : s.byte? pos = none) (ht : t.byte? pos = none)
  /-- The end of both lines. -/
  | newline (hs : s.byte? pos = some Byte.newline) (ht : t.byte? pos = some Byte.newline)
  /-- The same character of one byte. -/
  | single {b : UInt8} (hs : s.byte? pos = some b) (ht : t.byte? pos = some b)
      (hsingle : Text.ShiftJis.isLead b = false) (hnewline : b ≠ Byte.newline)
      (hbackquote : b ≠ Byte.backquote) (hrest : s.SameMarkup t special (pos + 1))
  /-- Two characters of two bytes. -/
  | double {lead lead' : UInt8} (hs : s.byte? pos = some lead) (ht : t.byte? pos = some lead')
      (hlead : Text.ShiftJis.isLead lead = true) (hlead' : Text.ShiftJis.isLead lead' = true)
      (hspecial : special (t.slice pos (pos + 2)) = special (s.slice pos (pos + 2)))
      (hrest : s.SameMarkup t special (pos + 2))

/-- Two scripts with the same markup agree on the byte at the position. -/
theorem next (h : s.SameMarkup t special pos) : Next s t special pos := by
  have hs : s.byte? pos = (s.ahead pos).head? := s.byte?_eq_head? pos
  have ht : t.byte? pos = (t.ahead pos).head? := t.byte?_eq_head? pos
  have hleft := s.length_ahead pos
  have hright := t.length_ahead pos
  generalize hahead : s.ahead pos = front at hs hleft
  generalize hahead' : t.ahead pos = front' at ht hright
  have htext : Bytes.SameMarkup special front front' := hahead ▸ hahead' ▸ h.text
  cases htext with
  | finish => exact .finish hs ht
  | newline => exact .newline hs ht
  | single hsingle hnewline hbackquote hrest =>
    refine .single hs ht hsingle hnewline hbackquote ⟨h.leftEncoding, h.rightEncoding, ?_, ?_, ?_⟩
    · rw [List.length_cons] at hleft
      omega
    · rw [List.length_cons] at hright
      omega
    · rwa [ahead_succ hahead, ahead_succ hahead']
  | @double lead trail lead' trail' rest rest' hlead hlead' hspecial hrest =>
    refine .double hs ht hlead hlead' ?_ ⟨h.leftEncoding, h.rightEncoding, ?_, ?_, ?_⟩
    · rw [slice_eq_take, slice_eq_take, hahead, hahead']
      exact hspecial
    · simp only [List.length_cons] at hleft
      omega
    · simp only [List.length_cons] at hright
      omega
    · rwa [ahead_succ (ahead_succ hahead), ahead_succ (ahead_succ hahead')]

/-- No character of the lines is a backquote. -/
theorem byte?_ne_backquote (h : s.SameMarkup t special pos) :
    s.byte? pos ≠ some Byte.backquote := by
  cases h.next with
  | finish hs | newline hs =>
    rw [hs]
    decide
  | single hs _ _ _ hbackquote =>
    rw [hs]
    exact fun heq => hbackquote (Option.some.inj heq)
  | double hs _ hlead =>
    rw [hs]
    rintro ⟨⟩
    exact absurd hlead (by decide)

/-- Behind an ASCII character inside the lines. -/
theorem succ (h : s.SameMarkup t special pos) (hb : s.byte? pos = some b) (hascii : b < 0x80)
    (hnewline : b ≠ Byte.newline) : t.byte? pos = some b ∧ s.SameMarkup t special (pos + 1) := by
  cases h.next with
  | finish hs => exact absurd (hb.symm.trans hs) (Option.some_ne_none b)
  | newline hs => exact absurd (Option.some.inj (hb.symm.trans hs)) hnewline
  | single hs ht _ _ _ hrest => exact ⟨ht.trans (hs.symm.trans hb), hrest⟩
  | double hs _ hlead =>
    cases hs.symm.trans hb
    exact absurd hascii (Text.ShiftJis.not_ascii_of_isLead hlead)

/-- A predicate on ASCII bytes holds in both lines, or in none. -/
theorem holdsAt (h : s.SameMarkup t special pos) {p : UInt8 → Bool}
    (hp : ∀ b, p b = true → b < 0x80) : t.holdsAt pos p = s.holdsAt pos p := by
  have hnot := fun b => Text.ShiftJis.eq_false_of_isLead hp (b := b)
  rw [Script.holdsAt, Script.holdsAt]
  cases h.next with
  | finish hs ht | newline hs ht | single hs ht => rw [hs, ht]
  | double hs ht hlead hlead' =>
    rw [hs, ht, Option.any_some, Option.any_some, hnot _ hlead, hnot _ hlead']

/-- Two scripts with the same markup hold the same signs. -/
theorem isAt (h : s.SameMarkup t special pos) (hascii : b < 0x80) :
    t.isAt pos b = s.isAt pos b := by
  have hisAt : ∀ u : Script, u.isAt pos b = u.holdsAt pos (· == b) := by
    intro u
    rw [Script.isAt, Script.holdsAt]
    cases u.byte? pos <;> rfl
  rw [hisAt, hisAt]
  exact h.holdsAt fun c hc => beq_iff_eq.mp hc ▸ hascii

/-! ## Scans -/

/-- The bytes of expressions that come next are the same in both lines. -/
theorem sameText (h : s.SameMarkup t special pos) :
    ∃ n, SameText s t pos pos n ∧ ∀ j ≤ n, s.SameMarkup t special (pos + j) := by
  -- Every byte that an expression may hold leaves less of the line.
  induction hleft : s.size - pos generalizing pos with
  | zero =>
    have hend : s.byte? pos = none := by
      cases hb : s.byte? pos with
      | none => rfl
      | some b => exact absurd (lt_size_of_byte? hb) (by omega)
    have hsame := h.holdsAt (p := Byte.inExpression) fun b hb => (Byte.inline_of_inExpression hb).1
    have hnone : s.holdsAt pos Byte.inExpression = false := by
      rw [Script.holdsAt, hend, Option.any_none]
    refine ⟨0, ⟨fun j hj => absurd hj j.not_lt_zero, hnone, hsame.trans hnone, h.leftSize,
      h.rightSize⟩, fun j hj => ?_⟩
    rw [Nat.le_zero.mp hj]
    exact h
  | succ left ih =>
    have hsame := h.holdsAt (p := Byte.inExpression) fun b hb => (Byte.inline_of_inExpression hb).1
    cases hin : s.holdsAt pos Byte.inExpression with
    | false =>
      refine ⟨0, ⟨fun j hj => absurd hj j.not_lt_zero, hin, hsame.trans hin, h.leftSize,
        h.rightSize⟩, fun j hj => ?_⟩
      rw [Nat.le_zero.mp hj]
      exact h
    | true =>
      obtain ⟨b, hb, hin⟩ := (Option.any_eq_true _ _).mp hin
      have hinline := Byte.inline_of_inExpression hin
      obtain ⟨hbt, hnext⟩ := h.succ hb hinline.1 hinline.2
      obtain ⟨n, htext, hrest⟩ := ih hnext (by omega)
      have hpos : ∀ j, pos + (j + 1) = pos + 1 + j := by omega
      refine ⟨n + 1, ⟨fun j hj => ?_, ?_, ?_, ?_, ?_⟩, fun j hj => ?_⟩
      · cases j with
        | zero => exact hbt.trans hb.symm
        | succ j =>
          rw [hpos]
          exact htext.byte j (by omega)
      · exact hpos n ▸ htext.left
      · exact hpos n ▸ htext.right
      · exact hpos n ▸ htext.leftSize
      · exact hpos n ▸ htext.rightSize
      · cases j with
        | zero => exact h
        | succ j => exact hpos j ▸ hrest j (by omega)

/-- Over bytes of expressions both lines are scanned alike. -/
theorem advanceWhile (h : s.SameMarkup t special pos) {p : UInt8 → Bool}
    (hp : ∀ b, p b = true → Byte.inExpression b = true) :
    t.advanceWhile p pos = s.advanceWhile p pos ∧
      t.slice pos (s.advanceWhile p pos) = s.slice pos (s.advanceWhile p pos) ∧
      s.SameMarkup t special (s.advanceWhile p pos) := by
  obtain ⟨n, htext, hmarkup⟩ := h.sameText
  obtain ⟨k, -, hkn, hs, ht⟩ := htext.advanceWhile hp (Nat.zero_le n)
  rw [Nat.add_zero] at hs ht
  have hslice := htext.slice (Nat.zero_le k) hkn
  rw [Nat.add_zero] at hslice
  rw [hs, ht]
  exact ⟨rfl, hslice, hmarkup k hkn⟩

/-- Blanks are passed alike, and the markup behind them is the same. -/
theorem skipBlanks (h : s.SameMarkup t special pos) :
    t.skipBlanks pos = s.skipBlanks pos ∧ s.SameMarkup t special (s.skipBlanks pos) :=
  have hscan := h.advanceWhile fun _ => Byte.inExpression_of_isBlank
  ⟨hscan.1, hscan.2.2⟩

/-- An optional sign is taken alike, and the markup behind it is the same. -/
theorem eat (h : s.SameMarkup t special pos) (hascii : b < 0x80) (hnewline : b ≠ Byte.newline) :
    t.eat b pos = s.eat b pos ∧ s.SameMarkup t special (s.eat b pos) := by
  rw [Script.eat, Script.eat, h.isAt hascii]
  split
  · next hat => exact ⟨rfl, (h.succ (beq_iff_eq.mp hat) hascii hnewline).2⟩
  · exact ⟨rfl, h⟩

end SameMarkup

/-- What two lines have at a place is the same, and behind it there is the same markup again. -/
structure SameFound (s t : Script) (special : Bytes → Bool) {α : Type} (behind : α → Nat)
    (found found' : Option α) : Prop where
  /-- Both have the same, or both have nothing. -/
  same : found' = found
  /-- The same markup lies behind it. -/
  markup : ∀ a, found = some a → s.SameMarkup t special (behind a)

namespace SameFound

variable {s t : Script} {special : Bytes → Bool} {α β : Type} {behind : α → Nat} {after : β → Nat}

/-- Two readers that find nothing find the same. -/
protected theorem none : s.SameFound t special behind none none :=
  ⟨rfl, fun _ h => absurd h.symm (Option.some_ne_none _)⟩

/-- Two readers that find the same value find the same, where the markup behind it is the same. -/
protected theorem some {a : α} (h : s.SameMarkup t special (behind a)) :
    s.SameFound t special behind (some a) (some a) :=
  ⟨rfl, fun _ ha => Option.some.inj ha ▸ h⟩

/-- Finding the same goes through a further reading. -/
protected theorem bind {found found' : Option α} {f g : α → Option β}
    (h : s.SameFound t special behind found found')
    (hfg : ∀ a, s.SameMarkup t special (behind a) → s.SameFound t special after (f a) (g a)) :
    s.SameFound t special after (found.bind f) (found'.bind g) := by
  obtain ⟨rfl, hmarkup⟩ := h
  cases found' with
  | none => exact .none
  | some a => exact hfg a (hmarkup a rfl)

end SameFound

namespace SameMarkup

variable {s t : Script} {special : Bytes → Bool} {pos : Nat} {b : UInt8}

/-- Behind a name both lines are at the same place. -/
theorem name? (h : s.SameMarkup t special pos) :
    s.SameFound t special Prod.snd (s.name? pos) (t.name? pos) := by
  obtain ⟨n, htext, hmarkup⟩ := h.sameText
  rcases htext.name? (Nat.zero_le n) with ⟨hs, ht⟩ | ⟨name, k, -, hkn, hs, ht⟩
  · rw [Nat.add_zero] at hs ht
    rw [hs, ht]
    exact .none
  · rw [Nat.add_zero] at hs ht
    rw [hs, ht]
    exact .some (hmarkup k hkn)

/-- The end of an optional name is the same, and so is the markup behind it. -/
theorem name?_getD (h : s.SameMarkup t special pos) :
    ((t.name? pos).map Prod.snd).getD pos = ((s.name? pos).map Prod.snd).getD pos ∧
      s.SameMarkup t special (((s.name? pos).map Prod.snd).getD pos) := by
  obtain ⟨hsame, hafter⟩ := h.name?
  rw [hsame]
  refine ⟨rfl, ?_⟩
  cases hname : s.name? pos with
  | none => exact h
  | some found => exact hafter found hname

/-- What was read up to the same place is equally long. -/
theorem length_slice (h : s.SameMarkup t special pos) (start : Nat) :
    (t.slice start pos).length = (s.slice start pos).length := by
  rw [Script.length_slice h.leftSize, Script.length_slice h.rightSize]

private theorem charWidth_of_isLead (hencoding : s.encoding = .shiftJis) (hb : s.byte? pos = some b)
    (hlead : Text.ShiftJis.isLead b = true) (hsize : pos + 2 ≤ s.size) : s.charWidth false pos = 2 := by
  rw [charWidth_of_byte? hb, hencoding, Encoding.width, hlead]
  exact Nat.min_eq_left (show 2 ≤ s.size - pos by omega)

private theorem charWidth_of_not_isLead (hencoding : s.encoding = .shiftJis)
    (hb : s.byte? pos = some b)
    (hsingle : Text.ShiftJis.isLead b = false) : s.charWidth false pos = 1 := by
  have hlt := lt_size_of_byte? hb
  rw [charWidth_of_byte? hb, hencoding, Encoding.width, hsingle]
  exact Nat.min_eq_left (show 1 ≤ s.size - pos by omega)

/-- A scan over characters up to the end of the line, or up to an ASCII byte, stops at the same
place in both lines. -/
theorem advanceChars (h : s.SameMarkup t special pos) {p : UInt8 → Bool}
    (hnewline : p Byte.newline = true) (hp : ∀ b, p b = true → b < 0x80) :
    t.advanceChars false p pos = s.advanceChars false p pos ∧
      s.SameMarkup t special (s.advanceChars false p pos) := by
  induction hleft : s.size - pos using Nat.strong_induction_on generalizing pos with
  | _ left ih =>
    have hnot := fun b => Text.ShiftJis.eq_false_of_isLead hp (b := b)
    cases h.next with
    | finish hs ht =>
      have hself : ∀ {u : Script}, u.byte? pos = none → u.advanceChars false p pos = pos := by
        intro u hu
        rw [Script.advanceChars, dif_neg (Nat.not_lt.mpr (Array.getElem?_eq_none_iff.mp hu))]
      rw [hself hs, hself ht]
      exact ⟨rfl, h⟩
    | newline hs ht =>
      rw [advanceChars_of_byte? hs, advanceChars_of_byte? ht, if_pos hnewline, if_pos hnewline]
      exact ⟨rfl, h⟩
    | single hs ht hsingle _ _ hrest =>
      have hlt := lt_size_of_byte? hs
      rw [advanceChars_of_byte? hs, advanceChars_of_byte? ht,
        charWidth_of_not_isLead h.leftEncoding hs hsingle,
        charWidth_of_not_isLead h.rightEncoding ht hsingle]
      split
      · exact ⟨rfl, h⟩
      · exact ih _ (by omega) hrest rfl
    | double hs ht hlead hlead' _ hrest =>
      have hlt := lt_size_of_byte? hs
      rw [advanceChars_of_byte? hs, advanceChars_of_byte? ht, hnot _ hlead, hnot _ hlead',
        charWidth_of_isLead h.leftEncoding hs hlead hrest.leftSize,
        charWidth_of_isLead h.rightEncoding ht hlead' hrest.rightSize]
      exact ih _ (by omega) hrest rfl

/-- The character that comes next has the same width in both lines, and is special in both or in
none. -/
theorem charWidth (h : s.SameMarkup t special pos) :
    t.charWidth false pos = s.charWidth false pos ∧
      special (t.slice pos (pos + s.charWidth false pos)) =
        special (s.slice pos (pos + s.charWidth false pos)) := by
  have hone : ∀ {u : Script} {b}, u.byte? pos = some b → u.slice pos (pos + 1) = [b] := by
    intro u b hb
    rw [slice_eq_cons hb pos.lt_succ_self, slice_eq_nil (.inl (Nat.le_refl _))]
  cases h.next with
  | finish hs ht =>
    have hzero : ∀ {u : Script}, u.byte? pos = none → u.charWidth false pos = 0 := by
      intro u hu
      rw [Script.charWidth, Encoding.charWidth, show u.bytes[pos]? = none from hu]
    have hempty : ∀ u : Script, u.slice pos pos = [] := fun _ => slice_eq_nil (.inl (Nat.le_refl _))
    rw [hzero hs, hzero ht, Nat.add_zero, hempty, hempty]
    exact ⟨rfl, rfl⟩
  | newline hs ht =>
    rw [charWidth_ascii hs (by decide), charWidth_ascii ht (by decide), hone hs, hone ht]
    exact ⟨rfl, rfl⟩
  | single hs ht hsingle =>
    rw [charWidth_of_not_isLead h.leftEncoding hs hsingle,
      charWidth_of_not_isLead h.rightEncoding ht hsingle, hone hs, hone ht]
    exact ⟨rfl, rfl⟩
  | double hs ht hlead hlead' hspecial hrest =>
    rw [charWidth_of_isLead h.leftEncoding hs hlead hrest.leftSize,
      charWidth_of_isLead h.rightEncoding ht hlead' hrest.rightSize]
    exact ⟨rfl, hspecial⟩

/-- Behind a character inside the lines. -/
theorem behind (h : s.SameMarkup t special pos) (hb : s.byte? pos = some b)
    (hnewline : b ≠ Byte.newline) : s.SameMarkup t special (pos + s.charWidth false pos) := by
  cases h.next with
  | finish hs => exact absurd (hb.symm.trans hs) (Option.some_ne_none b)
  | newline hs => exact absurd (Option.some.inj (hb.symm.trans hs)) hnewline
  | single hs _ hsingle _ _ hrest =>
    rw [charWidth_of_not_isLead h.leftEncoding hs hsingle]
    exact hrest
  | double hs _ hlead _ _ hrest =>
    rw [charWidth_of_isLead h.leftEncoding hs hlead hrest.leftSize]
    exact hrest

end SameMarkup

end Script

end NovelScript
