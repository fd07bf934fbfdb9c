import NovelScript.Proofs.Operand.Lockstep
import NovelScript.Proofs.Script.Walks

/-!
# What operands are made of

Operands are made of bytes that an expression may hold, and of literals. So a property of addresses
which is kept over every such byte and over every literal is kept by the readers of operands. A
reader of expressions goes in step with itself, and that only over the bytes up to the next one that
no expression holds: this is all that there is to say about what it passes over.
-/

namespace NovelScript

namespace Script

/-- The end of a literal: behind the delimiter that closes it, or else where its line ends. -/
def literalEnd (s : Script) (narrow : Bool) (delimiter : UInt8) (pos : Nat) : Nat :=
  s.eat delimiter (s.advanceChars narrow (fun b => b == Byte.newline || b == delimiter) pos)

/-- A literal does not end in front of where it begins. -/
theorem le_literalEnd (s : Script) (narrow : Bool) (delimiter : UInt8) (pos : Nat) :
    pos ≤ s.literalEnd narrow delimiter pos :=
  (s.le_advanceChars narrow _ pos).trans (s.le_eat delimiter _)

/-- `P` is kept over all that operands are made of. -/
structure Passable (s : Script) (narrow : Bool) (P : Nat → Prop) : Prop where
  /-- There are only addresses. -/
  le_size : ∀ {pos}, P pos → pos ≤ s.size
  /-- It is kept over a byte of an expression. -/
  byte : ∀ {pos}, s.holdsAt pos Byte.inExpression = true → P pos → P (pos + 1)
  /-- It is kept over a literal. -/
  literal : ∀ {pos delimiter}, delimiter = Byte.quote ∨ delimiter = Byte.backquote →
    s.isAt pos delimiter = true → P pos → P (s.literalEnd narrow delimiter (pos + 1))

variable {s : Script} {narrow : Bool} {P : Nat → Prop} {pos stop : Nat}

/-- Operands are inside of the script, and reading does not go back. -/
theorem passable_inside (s : Script) (narrow : Bool) (start : Nat) :
    s.Passable narrow fun pos => start ≤ pos ∧ pos ≤ s.size where
  le_size h := h.2
  byte hin h := ⟨Nat.le_succ_of_le h.1, lt_size_of_holdsAt hin⟩
  literal {pos delimiter} _ hat h := by
    have hle := s.le_literalEnd narrow delimiter (pos + 1)
    refine ⟨by omega, ?_⟩
    exact eat_le_size _ (s.advanceChars_le_size narrow _ (lt_size_of_isAt hat))

/-- What is kept over a byte is kept over many. -/
theorem Passable.bytes (h : s.Passable narrow P) (hle : pos ≤ stop)
    (hbytes : ∀ k, pos ≤ k → k < stop → s.holdsAt k Byte.inExpression = true) (hpos : P pos) :
    P stop := by
  induction stop, hle using Nat.le_induction with
  | base => exact hpos
  | succ stop hle ih =>
    exact h.byte (hbytes stop hle (Nat.lt_succ_self stop))
      (ih fun k hk hlt => hbytes k hk (Nat.lt_succ_of_lt hlt))

/-- Up to the next byte that no expression holds, a text is the same as itself. -/
theorem sameText_self (hpos : pos ≤ s.size) :
    SameText s s pos pos (s.advanceWhile Byte.inExpression pos - pos) := by
  have hle := s.le_advanceWhile Byte.inExpression pos
  have hsize := s.advanceWhile_le_size Byte.inExpression hpos
  have hstop := s.holdsAt_advanceWhile Byte.inExpression pos
  rw [← Nat.add_sub_cancel' hle] at hstop
  exact ⟨fun _ _ => rfl, hstop, hstop, by omega, by omega⟩

end Script

namespace Operand

open NovelScript.Action (Reaches)

/-- What the first of two readers in step gives, the second one gives, too. -/
theorem InStep.follow {x y n i : Nat} {α : Type} {k : α → Nat} {r r' : Reader α} {c c' d : Cursor}
    {v : α} (h : InStep x y n i k r r') (hlevel : Level x y n i c d) (hrun : r c = .ok v c') :
    ∃ d', r' d = .ok v d' ∧ Level x y n (k v) c' d' := by
  obtain ⟨w, d', hrun', rfl, hlevel'⟩ := (h c d hlevel).exists_of_left hrun
  exact ⟨d', hrun', hlevel'⟩

namespace Scope

/-- A literal is the text up to its end; a delimiter there is passed over, and its absence is a
warning. -/
theorem literal_eq {scope : Scope} {delimiter : UInt8} {c : Cursor} {stop : Nat}
    (hstop : scope.script.advanceChars scope.narrow (fun b => b == Byte.newline || b == delimiter)
      c.pos = stop) :
    scope.literal delimiter c = .ok (scope.script.slice c.pos stop) ⟨scope.script.eat delimiter stop,
      if scope.script.isAt stop delimiter then c.warnings else c.warnings ++ [.openString]⟩ := by
  subst hstop
  rw [literal, Action.bind_of_ok (show position c = .ok c.pos c from rfl), Script.eat]
  dsimp only
  split <;> rfl

/-- A byte is passed over if it is next. -/
theorem eat_eq {scope : Scope} {b : UInt8} {c : Cursor} :
    scope.eat b c = .ok (scope.script.isAt c.pos b)
      (if scope.script.isAt c.pos b then ⟨c.pos + 1, c.warnings⟩ else c) := by
  rw [eat, Action.bind_of_ok (show position c = .ok c.pos c from rfl)]
  cases scope.script.isAt c.pos b <;> rfl

/-- Where no blank is next, none is passed over. -/
theorem skipBlanks_eq_self {scope : Scope} {c : Cursor}
    (h : scope.script.skipBlanks c.pos = c.pos) : scope.skipBlanks c = .ok () c := by
  show EStateM.Result.ok () (⟨scope.script.skipBlanks c.pos, c.warnings⟩ : Cursor) = _
  rw [h]

/-- The blanks in front of what begins with passing over blanks do not count. -/
theorem skipBlanks_bind {α : Type} (scope : Scope) (f : Unit → Reader α) (c : Cursor) :
    (scope.skipBlanks >>= f) c =
      (scope.skipBlanks >>= f) ⟨scope.script.skipBlanks c.pos, c.warnings⟩ := by
  have hskip : scope.skipBlanks ⟨scope.script.skipBlanks c.pos, c.warnings⟩ =
      .ok () ⟨scope.script.skipBlanks c.pos, c.warnings⟩ :=
    skipBlanks_eq_self (scope.script.skipBlanks_skipBlanks c.pos)
  rw [Action.bind_of_ok hskip, Action.bind_of_ok (show scope.skipBlanks c = .ok () _ from rfl)]

/-- A reference to a variable begins with a sigil. -/
theorem holdsAt_of_varRef {scope : Scope} {c c' : Cursor} {target : VariableRef}
    (hrun : scope.varRef c = .ok target c') :
    scope.script.holdsAt (scope.script.skipBlanks c.pos) Byte.isSigil = true := by
  have hsigil : ∀ {sigil}, Byte.isSigil sigil = true →
      scope.script.isAt (scope.script.skipBlanks c.pos) sigil = true →
      scope.script.holdsAt (scope.script.skipBlanks c.pos) Byte.isSigil = true :=
    fun hb hat => (Script.holdsAt_of_isAt hat).trans hb
  rw [varRef, Action.bind_of_ok (show scope.skipBlanks c = .ok () _ from rfl),
    Action.bind_of_ok eat_eq] at hrun
  cases hdollar : scope.script.isAt (scope.script.skipBlanks c.pos) Byte.dollar with
  | true => exact hsigil (by decide) hdollar
  | false =>
    rw [hdollar, if_neg Bool.false_ne_true] at hrun
    obtain ⟨_, c₁, href, -⟩ := Action.exists_of_run_eq_ok hrun
    rw [intRef, Action.bind_of_ok (show position _ = .ok (scope.script.skipBlanks c.pos) _ from rfl),
      callBound, intRefWithin, Action.bind_of_ok (show scope.skipBlanks _ = .ok ()
        ⟨scope.script.skipBlanks (scope.script.skipBlanks c.pos), c.warnings⟩ from rfl),
      Script.skipBlanks_skipBlanks, Action.bind_of_ok eat_eq] at href
    cases hpercent : scope.script.isAt (scope.script.skipBlanks c.pos) Byte.percent with
    | true => exact hsigil (by decide) hpercent
    | false =>
      rw [hpercent, if_neg Bool.false_ne_true, if_neg Bool.false_ne_true,
        Action.bind_of_ok eat_eq] at href
      cases hquestion : scope.script.isAt (scope.script.skipBlanks c.pos) Byte.question with
      | true => exact hsigil (by decide) hquestion
      | false =>
        rw [hquestion] at href
        cases href

/-- Blanks in front of a reference do not matter. -/
theorem varRef_skipBlanks (scope : Scope) (c : Cursor) :
    scope.varRef c = scope.varRef ⟨scope.script.skipBlanks c.pos, c.warnings⟩ :=
  scope.skipBlanks_bind _ c

/-- A term that is no literal and begins with the byte `b` at `pos`. -/
def wordTerm (scope : Scope) (b : UInt8) (pos : Nat) : Reader Bytes :=
  if b == Byte.dollar then do
    moveTo (pos + 1)
    let n ← scope.index
    let slot ← Action.ofExcept (Store.index n)
    return scope.store.str slot
  else if b == Byte.asterisk then do
    let after := ((scope.script.name? (pos + 1)).map Prod.snd).getD (pos + 1)
    moveTo after
    return scope.script.slice pos after
  else match scope.script.name? pos with
    | some (name, after) =>
      match scope.aliases.string? name with
      | some value => do
        moveTo after
        return value
      | none => throw (.mismatch .string (.word name))
    | none =>
      if b == Byte.percent || b == Byte.question then throw (.mismatch .string .integerVariable)
      else throw (.mismatch .string .nonString)

/-- A term is a literal, or it is none. -/
theorem strTerm_eq {scope : Scope} {c : Cursor} {start : Nat}
    (hstart : scope.script.skipBlanks c.pos = start) :
    scope.strTerm c =
      match scope.script.byte? start with
      | none => .error (.mismatch .string .nonString) ⟨start, c.warnings⟩
      | some b =>
        if b == Byte.quote || b == Byte.backquote then scope.literal b ⟨start + 1, c.warnings⟩
        else scope.wordTerm b start ⟨start, c.warnings⟩ := by
  subst hstart
  rw [strTerm, Action.bind_of_ok
    (show scope.skipBlanks c = .ok () ⟨scope.script.skipBlanks c.pos, c.warnings⟩ from rfl),
    Action.bind_of_ok (show position _ = .ok (scope.script.skipBlanks c.pos) _ from rfl)]
  cases scope.script.byte? (scope.script.skipBlanks c.pos) with
  | none => rfl
  | some b =>
    dsimp only
    split <;> rfl

/-- No string term but a literal begins with a byte that no expression holds. -/
theorem wordTerm_of_not_inExpression {scope : Scope} {byte : UInt8} {pos : Nat}
    (hbyte : scope.script.byte? pos = some byte) (hstop : Byte.inExpression byte = false) (c : Cursor) :
    scope.wordTerm byte pos c = .error (.mismatch .string .nonString) c := by
  have hne : ∀ {sign}, Byte.inExpression sign = true → (byte == sign) = false := by
    intro sign hsign
    rw [beq_eq_false_iff_ne]
    rintro rfl
    rw [hsign] at hstop
    cases hstop
  have hname : scope.script.name? pos = none := by
    have hstart : scope.script.holdsAt pos Byte.isNameStart = false := by
      rw [Script.holdsAt, hbyte, Option.any_some, ← Bool.not_eq_true]
      intro hstart
      rw [Byte.inExpression_of_isNameByte (Byte.isNameByte_of_isNameStart hstart)] at hstop
      cases hstop
    rw [Script.name?, hstart, if_neg Bool.false_ne_true]
  rw [wordTerm, hne (by decide), hne (by decide), hname]
  dsimp only
  rw [hne (by decide), hne (by decide)]
  rfl

namespace Alike

variable {a b : Scope} {x y n : Nat} (h : a.Alike b x y n)
include h

/-- A term that is not a literal is read in step. -/
theorem wordTerm {j : Nat} (byte : UInt8) (hj : j < n) :
    InStep x y n j (fun _ => j) (a.wordTerm byte (x + j)) (b.wordTerm byte (y + j)) := by
  refine .ite (fun _ => ?_) fun _ => .ite (fun _ => ?_) fun _ => ?_
  · refine .bind (.moveTo (Nat.le_succ j) hj) fun _ => .bind h.index fun number => ?_
    rw [h.store]
    exact .ofExcept_bind fun slot => .pure _ (Nat.le_refl j)
  · have hafter : ∃ m, j ≤ m ∧ m ≤ n ∧
        ((a.script.name? (x + j + 1)).map Prod.snd).getD (x + j + 1) = x + m ∧
        ((b.script.name? (y + j + 1)).map Prod.snd).getD (y + j + 1) = y + m := by
      obtain ⟨ha, hb⟩ | ⟨name, m, hjm, hmn, ha, hb⟩ := h.text.name? (show j + 1 ≤ n from hj)
      · refine ⟨j + 1, Nat.le_succ j, hj, ?_, ?_⟩
        · rw [show x + j + 1 = x + (j + 1) from rfl, ha]
          rfl
        · rw [show y + j + 1 = y + (j + 1) from rfl, hb]
          rfl
      · refine ⟨m, by omega, hmn, ?_, ?_⟩
        · rw [show x + j + 1 = x + (j + 1) from rfl, ha]
          rfl
        · rw [show y + j + 1 = y + (j + 1) from rfl, hb]
          rfl
    obtain ⟨m, hjm, hmn, ha, hb⟩ := hafter
    dsimp only
    rw [ha, hb, h.text.slice hjm hmn]
    exact .bind (.moveTo hjm hmn) fun _ => .pure _ (Nat.le_refl j)
  · rw [h.aliases]
    obtain ⟨ha, hb⟩ | ⟨name, m, hjm, hmn, ha, hb⟩ := h.text.name? (Nat.le_of_lt hj)
    · rw [ha, hb]
      exact .ite (fun _ => .throw _) fun _ => .throw _
    · rw [ha, hb]
      dsimp only
      split
      · exact .bind (.moveTo hjm hmn) fun _ => .pure _ (Nat.le_refl j)
      · exact .throw _

end Alike

end Scope

end Operand

/-! ## What readers pass over -/

namespace Script.Passable

open NovelScript.Operand
open NovelScript.Action (Reaches)

variable {scope : Scope} {P : Nat → Prop} (h : scope.script.Passable scope.narrow P)
include h

/-- Up to the next byte that no expression holds, `P` is kept. -/
theorem of_level {x i : Nat} {c d : Cursor} (hx : P x)
    (hlevel : Level x x (scope.script.advanceWhile Byte.inExpression x - x) i c d) : At P c := by
  obtain ⟨j, -, hj, hpos, -⟩ := hlevel
  rw [At, hpos]
  refine h.bytes (Nat.le_add_right x j) (fun k hk hlt => ?_) hx
  exact holdsAt_of_lt_advanceWhile hk (by omega)

/-- A reader that goes in step with itself passes over nothing but bytes of expressions. -/
theorem reaches_of_inStep {α : Type} {k : α → Nat} {r : Reader α}
    (hr : ∀ {x n}, scope.Alike scope x x n → InStep x x n 0 k r r) :
    Reaches (At P) (fun _ => At P) r := by
  intro c v c' hc hrun
  have hself : scope.Alike scope c.pos c.pos _ := ⟨sameText_self (h.le_size hc), rfl, rfl⟩
  obtain ⟨d, -, hlevel⟩ := (hr hself).follow ⟨0, Nat.le_refl 0, Nat.zero_le _, rfl, rfl, rfl⟩ hrun
  exact h.of_level hc hlevel

/-- Blanks may be passed over. -/
theorem reaches_skipBlanks : Reaches (At P) (fun _ => At P) scope.skipBlanks :=
  h.reaches_of_inStep fun hself => hself.skipBlanks

/-- So may a byte that an expression may hold. -/
theorem reaches_eat {b : UInt8} (hb : Byte.inExpression b = true) :
    Reaches (At P) (fun _ => At P) (scope.eat b) :=
  h.reaches_of_inStep fun hself => hself.eat hb

/-- A reference to a variable may be passed over. -/
theorem reaches_varRef : Reaches (At P) (fun _ => At P) scope.varRef :=
  h.reaches_of_inStep fun hself => hself.varRef

/-- So may an integer expression. -/
theorem reaches_int : Reaches (At P) (fun _ => At P) scope.int :=
  h.reaches_of_inStep fun hself => hself.int

/-- So does a string term that is no literal. -/
theorem at_of_wordTerm {byte : UInt8} {pos : Nat} {value : Bytes} {c c' : Cursor} (hpos : P pos)
    (hbyte : scope.script.byte? pos = some byte) (hc : c.pos = pos)
    (hrun : scope.wordTerm byte pos c = .ok value c') : At P c' := by
  cases hin : Byte.inExpression byte with
  | false =>
    rw [Scope.wordTerm_of_not_inExpression hbyte hin c] at hrun
    cases hrun
  | true =>
    have hself : scope.Alike scope pos pos _ := ⟨sameText_self (h.le_size hpos), rfl, rfl⟩
    have hlt : pos + 1 ≤ scope.script.advanceWhile Byte.inExpression pos := by
      rw [advanceWhile_of_byte? hbyte, if_pos hin]
      exact scope.script.le_advanceWhile _ _
    obtain ⟨d, -, hlevel⟩ := (hself.wordTerm byte (show 0 < _ by omega)).follow
      ⟨0, Nat.le_refl 0, Nat.zero_le _, hc, hc, rfl⟩ hrun
    exact h.of_level hpos hlevel

/-- So may a term of a string expression. -/
theorem reaches_strTerm : Reaches (At P) (fun _ => At P) scope.strTerm := by
  intro c value c' hc hrun
  have hstart : P (scope.script.skipBlanks c.pos) :=
    h.reaches_skipBlanks hc (show scope.skipBlanks c = .ok () _ from rfl)
  rw [Scope.strTerm_eq rfl] at hrun
  cases hbyte : scope.script.byte? (scope.script.skipBlanks c.pos) with
  | none =>
    rw [hbyte] at hrun
    cases hrun
  | some byte =>
    rw [hbyte] at hrun
    dsimp only at hrun
    split at hrun
    · next hquote =>
      have hdelimiter : byte = Byte.quote ∨ byte = Byte.backquote := by
        rwa [Bool.or_eq_true, beq_iff_eq, beq_iff_eq] at hquote
      rw [Scope.literal_eq rfl] at hrun
      obtain ⟨-, rfl⟩ := EStateM.Result.ok.inj hrun
      exact h.literal hdelimiter (beq_iff_eq.mpr hbyte) hstart
    · exact h.at_of_wordTerm hstart hbyte rfl hrun

/-- The rest of a string expression. -/
theorem reaches_strTail (terms : Nat) (front : Bytes) :
    Reaches (At P) (fun _ => At P) (scope.strTail terms front) := by
  induction terms generalizing front with
  | zero => exact .pure fun _ hc => hc
  | succ terms ih =>
    refine .bind h.reaches_skipBlanks fun _ => .bind (h.reaches_eat (by decide)) fun joined => ?_
    refine .ite (fun _ => ?_) fun _ => .pure fun _ hc => hc
    exact .bind h.reaches_skipBlanks fun _ => .bind h.reaches_strTerm fun term => ih _

/-- So may a string expression. -/
theorem reaches_str : Reaches (At P) (fun _ => At P) scope.str :=
  .bind h.reaches_strTerm fun _ => reaches_position fun _ _ => h.reaches_strTail _ _

private theorem at_of_name? {pos after : Nat} {name : String} (hpos : P pos)
    (hname : scope.script.name? pos = some (name, after)) : P after := by
  unfold Script.name? at hname
  split at hname
  · cases hname
    refine h.bytes (scope.script.le_advanceWhile _ _) (fun k hk hlt => ?_) hpos
    obtain ⟨b, hb, hname⟩ := (Option.any_eq_true _ _).mp (holdsAt_of_lt_advanceWhile hk hlt)
    exact (Option.any_eq_true _ _).mpr ⟨b, hb, Byte.inExpression_of_isNameByte hname⟩
  · cases hname

/-- So may a label. -/
theorem reaches_label : Reaches (At P) (fun _ => At P) scope.label := by
  refine .bind h.reaches_skipBlanks fun _ => .bind (h.reaches_eat (by decide)) fun starred => ?_
  refine .ite (fun _ => reaches_position fun pos hpos => ?_) fun _ => .bind h.reaches_str fun bytes => ?_
  · split
    · exact .throw _
    · next name after hname =>
      refine .bind (keeps_moveTo (h.at_of_name? hpos hname)).reaches fun _ => ?_
      exact .bind h.reaches_skipBlanks fun _ => .pure fun _ hc => hc
  · exact .ite (fun _ => .fail) fun _ => .pure fun _ hc => hc

end Script.Passable

end NovelScript
