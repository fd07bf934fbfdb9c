import NovelScript.Proofs.Operand.Literals

/-!
# Assignments that are written alike are read alike

An assignment that is read in a statement may also stand in text, and there perhaps in narrow mode.
If that mode keeps its literals, then it is read alike in both places.

A literal that is not closed takes the rest of its line, whatever that is. Such a literal gives a
warning, so that only readers are compared that give none.
-/

namespace NovelScript

namespace Operand

open NovelScript.Action (Reaches)

/-! ## String expressions -/

/-- A literal is not closed: there is a warning, and the rest of the line is passed over. -/
def Broken (s : Script) (c : Cursor) : Prop :=
  c.warnings ≠ [] ∧ ∀ b ∈ s.byte? c.pos, b = Byte.newline

namespace Scope

/-- Behind a literal that is not closed a string expression ends. -/
theorem strTail_of_broken {scope : Scope} {c : Cursor} (h : Broken scope.script c) (terms : Nat)
    (front : Bytes) : scope.strTail terms front c = .ok front c := by
  cases terms with
  | zero => rfl
  | succ terms =>
    have hholds : scope.script.holdsAt c.pos Byte.isBlank = false := by
      rw [Script.holdsAt, ← Bool.not_eq_true, Option.any_eq_true]
      rintro ⟨b, hb, hblank⟩
      rw [h.2 b hb] at hblank
      cases hblank
    have hplus : scope.script.isAt c.pos Byte.plus = false := by
      rw [Script.isAt, beq_eq_false_iff_ne]
      exact fun hb => absurd (h.2 _ hb) (by decide)
    have hskip : scope.skipBlanks c = .ok () c :=
      skipBlanks_eq_self (Script.advanceWhile_eq_self hholds)
    have heat : scope.eat Byte.plus c = .ok false c := by
      rw [eat_eq, hplus]
      rfl
    rw [strTail, Action.bind_of_ok hskip, Action.bind_of_ok heat]
    rfl

/-- The value that is assigned to a target, which is an expression of the kind of the target. -/
def valueFor (scope : Scope) (target : VariableRef) : Reader (VariableRef × Value) := do
  scope.skipBlanks
  if target.isStr then
    let value ← scope.str
    return (target, .str value)
  else
    let value ← scope.int
    return (target, .int value)

/-- Blanks in front of the value do not matter. -/
theorem valueFor_skipBlanks (scope : Scope) (target : VariableRef) (c : Cursor) :
    scope.valueFor target c =
      scope.valueFor target ⟨scope.script.skipBlanks c.pos, c.warnings⟩ :=
  scope.skipBlanks_bind _ c

/-- An assignment is a target, an equals sign, and a value of the kind of the target. -/
theorem assignment_eq (scope : Scope) : scope.assignment = (do
    let target ← scope.varRef
    scope.skipBlanks
    if ← scope.eat Byte.equals then scope.valueFor target else throw .blockEqualsExpected) := by
  have hguard : ∀ (eaten : Bool) (target : VariableRef),
      (do
        unless eaten do throw .blockEqualsExpected
        scope.valueFor target : Reader (VariableRef × Value)) =
      if eaten then scope.valueFor target else throw .blockEqualsExpected := by
    intro eaten target
    cases eaten <;> rfl
  simp only [← hguard]
  rfl

/-- Blanks in front of an assignment do not matter. -/
theorem assignment_skipBlanks (scope : Scope) (c : Cursor) :
    scope.assignment c = scope.assignment ⟨scope.script.skipBlanks c.pos, c.warnings⟩ := by
  rw [assignment_eq]
  show EStateM.bind scope.varRef _ c = EStateM.bind scope.varRef _ _
  rw [EStateM.bind, EStateM.bind, ← varRef_skipBlanks]

private theorem reaches_valueFor {P : Nat → Prop} {scope : Scope}
    (h : scope.script.Passable scope.narrow P) (target : VariableRef) :
    Reaches (At P) (fun _ => At P) (scope.valueFor target) := by
  refine .bind h.reaches_skipBlanks fun _ => .ite (fun _ => ?_) fun _ => ?_
  · exact .bind h.reaches_str fun _ => .pure fun _ hc => hc
  · exact .bind h.reaches_int fun _ => .pure fun _ hc => hc

/-- The same text is read with the same variables and constants, first where all characters are
whole and then perhaps in narrow mode. -/
structure LiteralsAlike (a b : Scope) (x y n : Nat) : Prop extends a.Alike b x y n where
  /-- All characters are whole in the first place. -/
  wide : a.narrow = false
  /-- The encoding is the same. -/
  encoding : b.script.encoding = a.script.encoding
  /-- Literals have the same end in both places. -/
  literals : a.script.encoding.KeepsLiterals b.narrow (a.script.slice x (x + n))

namespace LiteralsAlike

variable {a b : Scope} {x y n i : Nat} {c c' d : Cursor} {value : Bytes}
  (h : a.LiteralsAlike b x y n)
include h

/-- What the first readers come to is along the text. -/
theorem passable : a.script.Passable a.narrow (a.script.Along b.narrow (x + n) none) :=
  h.wide ▸ a.script.passable_along b.narrow (x + n)

private theorem literal {delimiter : UInt8} (hlevel : Level x y n i c d)
    (halong : At (a.script.Along b.narrow (x + n) (some delimiter)) c)
    (hrun : a.literal delimiter c = .ok value c') (hend : c'.pos ≤ x + n) :
    (∃ d', b.literal delimiter d = .ok value d' ∧ Level x y n i c' d') ∨ Broken a.script c' := by
  obtain ⟨j, hij, hjn, hc, hd, hwarnings⟩ := hlevel
  have hstop := a.script.byte?_advanceChars false (fun b => b == Byte.newline || b == delimiter) (x + j)
  have hle := a.script.le_advanceChars false (fun b => b == Byte.newline || b == delimiter) (x + j)
  generalize hstopAt : a.script.advanceChars false (fun b => b == Byte.newline || b == delimiter)
    (x + j) = stop at hstop hle
  obtain ⟨k, rfl⟩ := Nat.exists_eq_add_of_le (Nat.le_trans (Nat.le_add_right x j) hle)
  rw [literal_eq (by rw [h.wide, hc, hstopAt]), hc, Script.eat] at hrun
  obtain ⟨rfl, hc'⟩ := EStateM.Result.ok.inj hrun
  cases hclosed : a.script.isAt (x + k) delimiter with
  | true =>
    rw [hclosed, if_pos rfl, if_pos rfl] at hc'
    rw [← hc'] at hend
    have hkn : k < n := by
      have hpos : x + k + 1 ≤ x + n := hend
      omega
    have hsame : b.script.advanceChars b.narrow (fun b => b == Byte.newline || b == delimiter) (y + j) =
        y + k := by
      refine h.text.advanceChars_eq h.encoding ?_ hkn hstopAt
      rw [← hc]
      exact halong
    have hclosed' : b.script.isAt (y + k) delimiter = true := by
      rw [Script.isAt, h.text.byte k hkn]
      exact hclosed
    refine .inl ⟨⟨y + k + 1, d.warnings⟩, ?_, k + 1, by omega, by omega, by rw [← hc']; rfl, rfl, ?_⟩
    · rw [literal_eq (by rw [hd, hsame]), hd, Script.eat, hclosed', if_pos rfl, if_pos rfl,
        h.text.slice (by omega) (Nat.le_of_lt hkn)]
    · rw [← hc']
      exact hwarnings
  | false =>
    rw [hclosed, if_neg Bool.false_ne_true, if_neg Bool.false_ne_true] at hc'
    refine .inr ?_
    rw [← hc']
    refine ⟨List.concat_ne_nil _ _, fun byte hbyte => ?_⟩
    have hends := hstop byte hbyte
    rw [Bool.or_eq_true, beq_iff_eq, beq_iff_eq] at hends
    rcases hends with hnewline | hdelimited
    · exact hnewline
    · rw [Script.isAt, Option.mem_def.mp hbyte, hdelimited, beq_self_eq_true] at hclosed
      cases hclosed

/-- A term that is read within the text in the first place is read in the second one, unless it is a
literal that is not closed. -/
theorem strTerm (hlevel : Level x y n i c d) (halong : At (a.script.Along b.narrow (x + n) none) c)
    (hrun : a.strTerm c = .ok value c') (hend : c'.pos ≤ x + n) :
    (∃ d', b.strTerm d = .ok value d' ∧ Level x y n i c' d') ∨ Broken a.script c' := by
  obtain ⟨j, hij, hjn, hc, hd, hwarnings⟩ := hlevel
  obtain ⟨m, hjm, hmn, ha, hb⟩ := h.text.skipBlanks hjn
  have hstart : a.script.Along b.narrow (x + n) none (x + m) := by
    rw [← ha, ← hc]
    exact h.passable.reaches_skipBlanks halong (show a.skipBlanks c = .ok () _ from rfl)
  rw [strTerm_eq (hc ▸ ha)] at hrun
  rw [strTerm_eq (hd ▸ hb), hwarnings]
  cases hbyte : a.script.byte? (x + m) with
  | none =>
    rw [hbyte] at hrun
    cases hrun
  | some byte =>
    rw [hbyte] at hrun
    dsimp only at hrun
    have hlt : m < n := by
      refine Nat.lt_of_le_of_ne hmn ?_
      rintro rfl
      have hstop := h.text.left
      rw [Script.holdsAt, hbyte, Option.any_some] at hstop
      split at hrun
      · rw [literal_eq rfl] at hrun
        obtain ⟨-, rfl⟩ := EStateM.Result.ok.inj hrun
        have hle : x + m + 1 ≤ a.script.literalEnd a.narrow byte (x + m + 1) :=
          a.script.le_literalEnd a.narrow byte _
        have hpos : a.script.literalEnd a.narrow byte (x + m + 1) ≤ x + m := hend
        omega
      · rw [wordTerm_of_not_inExpression hbyte hstop] at hrun
        cases hrun
    rw [show b.script.byte? (y + m) = some byte from (h.text.byte m hlt).trans hbyte]
    dsimp only
    split at hrun
    · next hquote =>
      rw [if_pos hquote]
      have hdelimiter : byte = Byte.quote ∨ byte = Byte.backquote := by
        rwa [Bool.or_eq_true, beq_iff_eq, beq_iff_eq] at hquote
      have hopened : Level x y n i ⟨x + m + 1, c.warnings⟩ ⟨y + m + 1, c.warnings⟩ :=
        ⟨m + 1, by omega, hlt, rfl, rfl, rfl⟩
      exact h.literal hopened (hstart.begun hdelimiter (beq_iff_eq.mpr hbyte)) hrun hend
    · next hquote =>
      rw [if_neg hquote]
      have hbegun : Level x y n m ⟨x + m, c.warnings⟩ ⟨y + m, c.warnings⟩ :=
        ⟨m, Nat.le_refl m, hmn, rfl, rfl, rfl⟩
      obtain ⟨d', hrun', hlevel'⟩ := (h.wordTerm byte hlt).follow hbegun hrun
      exact .inl ⟨d', hrun', hlevel'.weaken (by omega)⟩

/-- The rest of a string expression that is read without a warning within the text in the first
place is read in the second one. -/
theorem strTail {terms terms' : Nat} {front : Bytes} (hterms : n - i < terms)
    (hterms' : n - i < terms') (hlevel : Level x y n i c d)
    (halong : At (a.script.Along b.narrow (x + n) none) c)
    (hrun : a.strTail terms front c = .ok value c') (hend : c'.pos ≤ x + n)
    (hquiet : c'.warnings = []) :
    ∃ d', b.strTail terms' front d = .ok value d' ∧ Level x y n i c' d' := by
  induction terms generalizing i c d front terms' with
  | zero => cases hterms
  | succ terms ih =>
    obtain ⟨terms', rfl⟩ : ∃ m, terms' = m + 1 := ⟨terms' - 1, by omega⟩
    obtain ⟨_, c₁, hblank, hrun⟩ := Action.exists_of_run_eq_ok hrun
    obtain ⟨d₁, hblank', hlevel₁⟩ := h.skipBlanks.follow hlevel hblank
    obtain ⟨joined, c₂, heat, hrun⟩ := Action.exists_of_run_eq_ok hrun
    obtain ⟨d₂, heat', hlevel₂⟩ := (h.eat (by decide)).follow hlevel₁ heat
    rw [Scope.strTail, Action.bind_of_ok hblank', Action.bind_of_ok heat']
    cases joined with
    | false =>
      cases hrun
      exact ⟨d₂, rfl, hlevel₂⟩
    | true =>
      change Level x y n (i + 1) c₂ d₂ at hlevel₂
      have halong₂ := h.passable.reaches_eat (by decide)
        (h.passable.reaches_skipBlanks halong hblank) heat
      obtain ⟨_, c₃, hblank₃, hrun⟩ := Action.exists_of_run_eq_ok hrun
      obtain ⟨d₃, hblank₃', hlevel₃⟩ := h.skipBlanks.follow hlevel₂ hblank₃
      have halong₃ := h.passable.reaches_skipBlanks halong₂ hblank₃
      obtain ⟨term, c₄, hterm, hrun⟩ := Action.exists_of_run_eq_ok hrun
      have halong₄ := h.passable.reaches_strTerm halong₃ hterm
      have hle : c₄.pos ≤ c'.pos := ((a.script.passable_inside a.narrow c₄.pos).reaches_strTail terms _
        ⟨Nat.le_refl _, halong₄.le_size⟩ hrun).1
      rw [if_pos rfl, Action.bind_of_ok hblank₃']
      rcases h.strTerm hlevel₃ halong₃ hterm (by omega) with ⟨d₄, hterm', hlevel₄⟩ | hbroken
      · have hi : i + 1 ≤ n := hlevel₄.le
        rw [Action.bind_of_ok hterm']
        obtain ⟨d', hrun', hlevel'⟩ := ih (by omega) (show n - (i + 1) < terms' by omega) hlevel₄
          halong₄ hrun
        exact ⟨d', hrun', hlevel'.weaken (Nat.le_succ i)⟩
      · rw [strTail_of_broken hbroken] at hrun
        obtain ⟨-, rfl⟩ := EStateM.Result.ok.inj hrun
        exact absurd hquiet hbroken.1

/-- A string expression that is read without a warning within the text in the first place is read in
the second one. -/
theorem str (hlevel : Level x y n i c d) (halong : At (a.script.Along b.narrow (x + n) none) c)
    (hrun : a.str c = .ok value c') (hend : c'.pos ≤ x + n) (hquiet : c'.warnings = []) :
    ∃ d', b.str d = .ok value d' ∧ Level x y n i c' d' := by
  obtain ⟨term, c₁, hterm, hrun⟩ := Action.exists_of_run_eq_ok hrun
  have halong₁ := h.passable.reaches_strTerm halong hterm
  have hrun : a.strTail (a.script.size - c₁.pos + 1) term c₁ = .ok value c' := hrun
  have hle : c₁.pos ≤ c'.pos := ((a.script.passable_inside a.narrow c₁.pos).reaches_strTail _ _
    ⟨Nat.le_refl _, halong₁.le_size⟩ hrun).1
  rcases h.strTerm hlevel halong hterm (by omega) with ⟨d₁, hterm', hlevel₁⟩ | hbroken
  · obtain ⟨j, hij, hjn, hc, hd, hwarnings⟩ := hlevel₁
    have hleft := h.text.leftSize
    have hright := h.text.rightSize
    obtain ⟨d', hrun', hlevel'⟩ := h.strTail (by omega)
      (show n - j < b.script.size - d₁.pos + 1 by omega)
      ⟨j, Nat.le_refl j, hjn, hc, hd, hwarnings⟩ halong₁ hrun hend hquiet
    refine ⟨d', ?_, hlevel'.weaken hij⟩
    rw [Scope.str, Action.bind_of_ok hterm']
    exact hrun'
  · rw [strTail_of_broken hbroken] at hrun
    obtain ⟨-, rfl⟩ := EStateM.Result.ok.inj hrun
    exact absurd hquiet hbroken.1

/-! ## Assignments -/

/-- A value that is read without a warning within the text in the first place is read in the second
one. -/
theorem valueFor {target : VariableRef} {assigned : VariableRef × Value}
    (hlevel : Level x y n i c d) (halong : At (a.script.Along b.narrow (x + n) none) c)
    (hrun : a.valueFor target c = .ok assigned c') (hend : c'.pos ≤ x + n)
    (hquiet : c'.warnings = []) :
    ∃ d', b.valueFor target d = .ok assigned d' ∧ Level x y n i c' d' := by
  obtain ⟨_, c₁, hblank, hrun⟩ := Action.exists_of_run_eq_ok hrun
  obtain ⟨d₁, hblank', hlevel₁⟩ := h.skipBlanks.follow hlevel hblank
  have halong₁ := h.passable.reaches_skipBlanks halong hblank
  rw [Scope.valueFor, Action.bind_of_ok hblank']
  cases hkind : target.isStr with
  | true =>
    rw [hkind, if_pos rfl] at hrun
    obtain ⟨value, c₂, hvalue, hrun⟩ := Action.exists_of_run_eq_ok hrun
    cases hrun
    obtain ⟨d₂, hvalue', hlevel₂⟩ := h.str hlevel₁ halong₁ hvalue hend hquiet
    rw [if_pos rfl, Action.bind_of_ok hvalue']
    exact ⟨d₂, rfl, hlevel₂⟩
  | false =>
    rw [hkind, if_neg Bool.false_ne_true] at hrun
    obtain ⟨value, c₂, hvalue, hrun⟩ := Action.exists_of_run_eq_ok hrun
    cases hrun
    obtain ⟨d₂, hvalue', hlevel₂⟩ := h.int.follow hlevel₁ hvalue
    rw [if_neg Bool.false_ne_true, Action.bind_of_ok hvalue']
    exact ⟨d₂, rfl, hlevel₂⟩

/-- **An assignment that is read without a warning within the text in the first place is read in the
second one.** -/
theorem assignment {assigned : VariableRef × Value} (hlevel : Level x y n i c d)
    (halong : At (a.script.Along b.narrow (x + n) none) c)
    (hrun : a.assignment c = .ok assigned c') (hend : c'.pos ≤ x + n) (hquiet : c'.warnings = []) :
    ∃ d', b.assignment d = .ok assigned d' ∧ Level x y n i c' d' := by
  rw [assignment_eq] at hrun
  obtain ⟨target, c₁, htarget, hrun⟩ := Action.exists_of_run_eq_ok hrun
  obtain ⟨d₁, htarget', hlevel₁⟩ := h.varRef.follow hlevel htarget
  have halong₁ := h.passable.reaches_varRef halong htarget
  obtain ⟨_, c₂, hblank, hrun⟩ := Action.exists_of_run_eq_ok hrun
  obtain ⟨d₂, hblank', j, hij, hjn, hc, hd, hwarnings⟩ := h.skipBlanks.follow hlevel₁ hblank
  have halong₂ := h.passable.reaches_skipBlanks halong₁ hblank
  rw [assignment_eq, Action.bind_of_ok htarget', Action.bind_of_ok hblank',
    Action.bind_of_ok eat_eq]
  rw [Action.bind_of_ok eat_eq] at hrun
  cases hequals : a.script.isAt c₂.pos Byte.equals with
  | false =>
    rw [hequals] at hrun
    cases hrun
  | true =>
    rw [hequals, if_pos rfl, if_pos rfl] at hrun
    have halong₃ := halong₂.outside (beq_iff_eq.mp hequals) (by decide) (by decide) (by decide)
    have hsize : c₂.pos + 1 ≤ a.script.size := Script.lt_size_of_isAt hequals
    have hle : c₂.pos + 1 ≤ c'.pos := (reaches_valueFor
      (a.script.passable_inside a.narrow (c₂.pos + 1)) target
      (show At _ ⟨c₂.pos + 1, c₂.warnings⟩ from ⟨Nat.le_refl _, hsize⟩) hrun).1
    have hlt : j < n := by omega
    have hequals' : b.script.isAt d₂.pos Byte.equals = true := by
      rw [Script.isAt, hd, h.text.byte j hlt, ← hc]
      exact hequals
    rw [hequals', if_pos rfl, if_pos rfl]
    have hlevel₃ : Level x y n i ⟨c₂.pos + 1, c₂.warnings⟩ ⟨d₂.pos + 1, d₂.warnings⟩ :=
      ⟨j + 1, by omega, hlt, congrArg (· + 1) hc, congrArg (· + 1) hd, hwarnings⟩
    exact h.valueFor hlevel₃ halong₃ hrun hend hquiet

end LiteralsAlike

end Scope

end Operand

end NovelScript
