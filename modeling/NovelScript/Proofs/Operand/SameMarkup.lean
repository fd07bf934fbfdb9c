import NovelScript.Proofs.Operand.SameAssignment
import NovelScript.Proofs.Script.SameMarkup
import NovelScript.Proofs.Store.SameLengths

/-!
# Operands in lines with the same markup

Operands are read alike from two lines with the same markup: expressions and references give the
same, and string expressions give strings that are equally long, since a literal may hold any
characters. It does not matter either if variables already differ in the bytes of their strings,
because expressions see no strings.
-/

namespace NovelScript.Operand

open NovelScript.Action (Paired Reaches)
open NovelScript.Script (SameText)

namespace Scope

/-! ## Expressions see no strings -/

/-- The readers of expressions are the same with other variables. -/
structure SameReaders (scope : Scope) (store : Store) (calls : Nat) : Prop where
  /-- Expressions are. -/
  expression : { scope with store }.expression calls = scope.expression calls
  /-- Rests of expressions are. -/
  continuation : ∀ lhs op rhs,
    { scope with store }.continuation calls lhs op rhs = scope.continuation calls lhs op rhs
  /-- Operators with their terms are. -/
  operation? : { scope with store }.operation? calls = scope.operation? calls
  /-- Terms are. -/
  factor : { scope with store }.factor calls = scope.factor calls
  /-- References are. -/
  intRefWithin : { scope with store }.intRefWithin calls = scope.intRefWithin calls
  /-- Indices in brackets are. -/
  subscripts : ∀ no, { scope with store }.subscripts calls no = scope.subscripts calls no
  /-- Numbers after sigils are. -/
  indexTerm : { scope with store }.indexTerm calls = scope.indexTerm calls

/-- Only the integers of the variables count. -/
theorem sameReaders {scope : Scope} {store : Store}
    (h : ∀ target, store.readInt target = scope.store.readInt target) (calls : Nat) :
    scope.SameReaders store calls := by
  induction calls with
  | zero => exact ⟨rfl, fun _ _ _ => rfl, rfl, rfl, rfl, fun _ => rfl, rfl⟩
  | succ calls ih =>
    constructor
    case expression =>
      simp only [Scope.expression, ih.factor, ih.operation?, ih.continuation]
      rfl
    case continuation =>
      intro lhs op rhs
      simp only [Scope.continuation, ih.operation?, ih.continuation]
    case operation? =>
      simp only [Scope.operation?, ih.factor]
      rfl
    case factor =>
      simp only [Scope.factor, ih.expression, ih.intRefWithin, h]
      rfl
    case intRefWithin =>
      simp only [Scope.intRefWithin, ih.indexTerm, ih.subscripts]
      rfl
    case subscripts =>
      intro no
      simp only [Scope.subscripts, ih.expression, ih.subscripts]
      rfl
    case indexTerm =>
      simp only [Scope.indexTerm, ih.intRefWithin, h]
      rfl

/-- Where a byte is next that begins no term of a string expression, there is none. -/
theorem strTerm_of_no_term {scope : Scope} {c : Cursor} {start : Nat} {byte : UInt8}
    (hstart : scope.script.skipBlanks c.pos = start) (hbyte : scope.script.byte? start = some byte)
    (hstop : (Byte.inExpression byte || byte == Byte.quote || byte == Byte.backquote) = false) :
    scope.strTerm c = .error (.mismatch .string .nonString) ⟨start, c.warnings⟩ := by
  obtain ⟨hterm, hbackquote⟩ := Bool.or_eq_false_iff.mp hstop
  obtain ⟨hin, hquote⟩ := Bool.or_eq_false_iff.mp hterm
  rw [strTerm_eq hstart, hbyte]
  dsimp only
  rw [hquote, hbackquote, Bool.or_self, if_neg Bool.false_ne_true,
    wordTerm_of_not_inExpression hbyte hin]

private theorem beginsTerm_of_isLead {byte : UInt8} (hlead : Text.ShiftJis.isLead byte = true) :
    (Byte.inExpression byte || byte == Byte.quote || byte == Byte.backquote) = false := by
  have hascii := Text.ShiftJis.not_ascii_of_isLead hlead
  rw [← Bool.not_eq_true, Bool.or_eq_true, Bool.or_eq_true, beq_iff_eq, beq_iff_eq]
  rintro ((hin | rfl) | rfl)
  · exact hascii (Byte.inline_of_inExpression hin).1
  · exact hascii (by decide)
  · exact hascii (by decide)

end Scope

/-! ## Two readers side by side -/

/-- Where the same markup lies ahead, the readers give what `R` relates, come to the same place,
where there is still the same markup ahead, and give the same warnings, or they fail for the same
reason. -/
def Twins (s t : Script) (special : Bytes → Bool) {α β : Type} (R : α → β → Prop) (r : Reader α)
    (r' : Reader β) : Prop :=
  ∀ c, s.SameMarkup t special c.pos →
    Paired (fun a c' b d' => R a b ∧ d' = c' ∧ s.SameMarkup t special c'.pos) (r c) (r' c)

namespace Twins

variable {s t : Script} {special : Bytes → Bool} {α β γ δ : Type} {R : α → β → Prop}
  {S : γ → δ → Prop} {r : Reader α} {r' : Reader β} {f : α → Reader γ} {g : β → Reader δ}

/-- Both readers give what is related. -/
protected theorem pure {a : α} {b : β} (h : R a b) : Twins s t special R (pure a) (pure b) :=
  fun _ hc => .ok ⟨h, rfl, hc⟩

/-- Both fail for the same reason. -/
protected theorem throw (fault : Fault) : Twins s t special R (throw fault) (throw fault) :=
  fun c _ => .error fault c c

/-- Readers that follow twins are twins if they are so for all related results. -/
protected theorem bind (h : Twins s t special R r r')
    (hfg : ∀ a b, R a b → Twins s t special S (f a) (g b)) :
    Twins s t special S (r >>= f) (r' >>= g) := by
  intro c hc
  refine (h c hc).bind ?_
  rintro a _ b c' ⟨hab, rfl, hc'⟩
  exact hfg a b hab c' hc'

/-- Both readers give the same. -/
theorem andThen {q : Reader α} {q' : Reader α} {f g : α → Reader γ} {S : γ → γ → Prop}
    (h : Twins s t special Eq q q') (hfg : ∀ a, Twins s t special S (f a) (g a)) :
    Twins s t special S (q >>= f) (q' >>= g) :=
  h.bind fun a _ hab => hab ▸ hfg a

private theorem ofExcept_bind {op : Except Fault α} {f g : α → Reader γ} {S : γ → γ → Prop}
    (hfg : ∀ a, Twins s t special S (f a) (g a)) :
    Twins s t special S (Action.ofExcept op >>= f) (Action.ofExcept op >>= g) :=
  fun c hc => Paired.ofExcept_bind fun a _ => hfg a c hc

/-- Both take the same of two ways. -/
protected theorem ite {p : Prop} [Decidable p] {q : Reader α} {q' : Reader β}
    (h : p → Twins s t special R r r') (hnot : ¬ p → Twins s t special R q q') :
    Twins s t special R (if p then r else q) (if p then r' else q') := by
  split
  · next hp => exact h hp
  · next hp => exact hnot hp

/-- Looking at the position. -/
protected theorem position {f : Nat → Reader α} {g : Nat → Reader β}
    (h : ∀ pos, s.SameMarkup t special pos → Twins s t special R (f pos) (g pos)) :
    Twins s t special R (position >>= f) (position >>= g) :=
  fun c hc => h c.pos hc c hc

/-- Both go on at an address from where the markup is the same. -/
protected theorem moveTo {pos : Nat} (h : s.SameMarkup t special pos) :
    Twins s t special Eq (moveTo pos) (moveTo pos) :=
  fun _ _ => .ok ⟨rfl, rfl, h⟩

/-- Both give the same warning. -/
protected theorem warn (warning : Warning) : Twins s t special Eq (warn warning) (warn warning) :=
  fun _ hc => .ok ⟨rfl, rfl, hc⟩

/-- Readers of expressions look at nothing but the bytes of expressions that come next. -/
theorem of_inStep {k : α → Nat} {q q' : Reader α}
    (h : ∀ {x n}, SameText s t x x n → InStep x x n 0 k q q') : Twins s t special Eq q q' := by
  intro c hc
  obtain ⟨n, htext, hmarkup⟩ := hc.sameText
  refine (h htext c c ⟨0, Nat.le_refl 0, Nat.zero_le n, rfl, rfl, rfl⟩).imp ?_
  rintro a c' b d' ⟨hab, j, -, hjn, hc', hd', hwarnings⟩
  refine ⟨hab.symm, ?_, hc' ▸ hmarkup j hjn⟩
  cases c'
  cases d'
  simp_all

end Twins

namespace Scope

/-- The lines are read in the same way, with variables that differ in their strings only. -/
structure SameLengths (a b : Scope) : Prop where
  /-- Characters of two bytes are whole in the first one. -/
  leftWide : a.narrow = false
  /-- So they are in the second one. -/
  rightWide : b.narrow = false
  /-- The constants are the same. -/
  aliases : b.aliases = a.aliases
  /-- The variables are the same, but for the bytes of strings. -/
  store : a.store.SameLengths b.store

namespace SameLengths

variable {a b : Scope} {special : Bytes → Bool}

private theorem skipBlanks : Twins a.script b.script special Eq a.skipBlanks b.skipBlanks := by
  refine .position fun pos hpos => ?_
  obtain ⟨hsame, hmarkup⟩ := hpos.skipBlanks
  rw [hsame]
  exact .moveTo hmarkup

private theorem eat {byte : UInt8} (hascii : byte < 0x80) (hnewline : byte ≠ Byte.newline) :
    Twins a.script b.script special Eq (a.eat byte) (b.eat byte) := by
  refine .position fun pos hpos => ?_
  rw [hpos.isAt hascii]
  refine .ite (fun hat => ?_) fun _ => .pure rfl
  exact .andThen (.moveTo (hpos.succ (beq_iff_eq.mp hat) hascii hnewline).2) fun _ => .pure rfl

variable (h : a.SameLengths b)
include h

/-! ### Expressions and references -/

/-- With the variables of the second scope the first one reads expressions as it does with its
own. -/
theorem alike {x n : Nat} (htext : SameText a.script b.script x x n) :
    { a with store := b.store }.Alike b x x n :=
  ⟨htext, rfl, h.aliases⟩

private theorem int : Twins a.script b.script special Eq a.int b.int := by
  have hsame : { a with store := b.store }.int = a.int := by
    simp only [Scope.int, (sameReaders h.store.readInt _).expression]
    rfl
  exact .of_inStep fun htext => hsame ▸ (h.alike htext).int

private theorem index : Twins a.script b.script special Eq a.index b.index := by
  have hsame : { a with store := b.store }.index = a.index := by
    simp only [Scope.index, (sameReaders h.store.readInt _).indexTerm]
    rfl
  exact .of_inStep fun htext => hsame ▸ (h.alike htext).index

/-- References to integer variables are read alike. -/
theorem intRef : Twins a.script b.script special Eq a.intRef b.intRef := by
  have hsame : { a with store := b.store }.intRef = a.intRef := by
    simp only [Scope.intRef, (sameReaders h.store.readInt _).intRefWithin]
    rfl
  exact .of_inStep fun htext => hsame ▸ (h.alike htext).intRef

private theorem varRef : Twins a.script b.script special Eq a.varRef b.varRef := by
  refine .andThen skipBlanks fun _ => .andThen (eat (by decide) (by decide)) fun isStr => ?_
  refine .ite (fun _ => .andThen h.index fun number => ?_) fun _ => .andThen h.intRef fun target => ?_
  · exact .andThen skipBlanks fun _ => .ofExcept_bind fun slot => .pure rfl
  · exact .andThen skipBlanks fun _ => .pure rfl

/-- So are string variables in text. -/
theorem strIndex : Twins a.script b.script special Eq a.strIndex b.strIndex := by
  refine .andThen (eat (by decide) (by decide)) fun isStr => .ite (fun _ => ?_) fun _ => .throw _
  exact .andThen h.index fun number => fun c hc => by
    cases Store.index number with
    | ok slot => exact .ok ⟨rfl, rfl, hc⟩
    | error fault => exact .error fault c c

/-! ### String expressions -/

private theorem literal {delimiter : UInt8} (hascii : delimiter < 0x80)
    (hnewline : delimiter ≠ Byte.newline) :
    Twins a.script b.script special (fun u v => v.length = u.length) (a.literal delimiter)
      (b.literal delimiter) := by
  refine .position fun pos hpos => ?_
  obtain ⟨hstop, hmarkup⟩ := hpos.advanceChars
    (p := fun b => b == Byte.newline || b == delimiter) (by rw [beq_self_eq_true, Bool.true_or]) (by
      intro b hb
      rw [Bool.or_eq_true, beq_iff_eq, beq_iff_eq] at hb
      rcases hb with rfl | rfl
      · decide
      · exact hascii)
  rw [h.leftWide, h.rightWide]
  dsimp only
  rw [hstop, hmarkup.isAt hascii]
  have hlength := hmarkup.length_slice pos
  refine .ite (fun hat => ?_) fun _ => ?_
  · have hclosed := (hmarkup.succ (beq_iff_eq.mp hat) hascii hnewline).2
    exact .andThen (.moveTo hclosed) fun _ => .pure hlength
  · exact .andThen (.moveTo hmarkup) fun _ => .andThen (.warn _) fun _ => .pure hlength

/-- A term that is no literal, and begins with the same character of one byte in both lines. -/
theorem wordTerm {byte : UInt8} {pos : Nat} (hpos : a.script.SameMarkup b.script special pos)
    (hnext : a.script.SameMarkup b.script special (pos + 1)) :
    Twins a.script b.script special (fun u v => v.length = u.length) (a.wordTerm byte pos)
      (b.wordTerm byte pos) := by
  refine .ite (fun _ => ?_) fun _ => .ite (fun _ => ?_) fun _ => ?_
  · refine .andThen (.moveTo hnext) fun _ => .andThen h.index fun number => ?_
    exact .ofExcept_bind fun slot => .pure (h.store.str slot)
  · obtain ⟨hsame, hafter⟩ := hnext.name?_getD
    dsimp only
    rw [hsame]
    refine .andThen (.moveTo hafter) fun _ => .pure ?_
    rw [hafter.length_slice pos]
  · rw [h.aliases]
    obtain ⟨hsame, hafter⟩ := hpos.name?
    rw [hsame]
    cases hname : a.script.name? pos with
    | none => exact .ite (fun _ => .throw _) fun _ => .throw _
    | some found =>
      dsimp only
      split
      · exact .andThen (.moveTo (hafter found hname)) fun _ => .pure rfl
      · exact .throw _

private theorem strTerm : Twins a.script b.script special (fun u v => v.length = u.length) a.strTerm
    b.strTerm := by
  intro c hc
  obtain ⟨hsame, hstart⟩ := hc.skipBlanks
  cases hstart.next with
  | finish hs ht =>
    rw [strTerm_eq rfl, strTerm_eq hsame, hs, ht]
    exact .error _ _ _
  | newline hs ht =>
    rw [strTerm_of_no_term rfl hs (by decide), strTerm_of_no_term hsame ht (by decide)]
    exact .error _ _ _
  | @single byte hs ht _ hnewline hbackquote hnext =>
    rw [strTerm_eq rfl, strTerm_eq hsame, hs, ht]
    dsimp only
    by_cases hquote : byte = Byte.quote
    · subst hquote
      exact h.literal (by decide) hnewline _ hnext
    · rw [if_neg (by simp [hquote, hbackquote]), if_neg (by simp [hquote, hbackquote])]
      exact h.wordTerm hstart hnext _ hstart
  | double hs ht hlead hlead' =>
    rw [strTerm_of_no_term rfl hs (beginsTerm_of_isLead hlead),
      strTerm_of_no_term hsame ht (beginsTerm_of_isLead hlead')]
    exact .error _ _ _

/-- A string expression goes on behind a plus sign only, so that both readers may read enough terms
for what is left of the scripts. -/
theorem strTail {terms terms' : Nat} {front front' : Bytes} (hfront : front'.length = front.length)
    {c : Cursor} (hc : a.script.SameMarkup b.script special c.pos)
    (hterms : a.script.size < c.pos + terms) (hterms' : b.script.size < c.pos + terms') :
    Paired (fun u c' v d' => v.length = u.length ∧ d' = c' ∧
        a.script.SameMarkup b.script special c'.pos)
      (a.strTail terms front c) (b.strTail terms' front' c) := by
  induction terms generalizing terms' front front' c with
  | zero => exact absurd hc.leftSize (by omega)
  | succ terms ih =>
    have hright := hc.rightSize
    obtain ⟨terms', rfl⟩ : ∃ m, terms' = m + 1 := ⟨terms' - 1, by omega⟩
    obtain ⟨hblanks, hstart⟩ := hc.skipBlanks
    have hle : c.pos ≤ a.script.skipBlanks c.pos := a.script.le_advanceWhile _ _
    rw [Scope.strTail, Scope.strTail,
      Action.bind_of_ok (show a.skipBlanks c = .ok () ⟨a.script.skipBlanks c.pos, c.warnings⟩ from rfl),
      Action.bind_of_ok (show b.skipBlanks c = .ok () ⟨b.script.skipBlanks c.pos, c.warnings⟩ from rfl),
      hblanks, Action.bind_of_ok eat_eq, Action.bind_of_ok eat_eq, hstart.isAt (by decide)]
    cases hplus : a.script.isAt (a.script.skipBlanks c.pos) Byte.plus with
    | false => exact .ok ⟨hfront, rfl, hstart⟩
    | true =>
      have hnext := (hstart.succ (beq_iff_eq.mp hplus) (by decide) (by decide)).2
      have hinside := a.script.passable_inside a.narrow (a.script.skipBlanks c.pos + 1)
      refine ((skipBlanks _ hnext).and_left fun _ _ hrun =>
        hinside.reaches_skipBlanks ⟨Nat.le_refl _, hnext.leftSize⟩ hrun).bind ?_
      rintro _ _ _ c₁ ⟨hle₁, -, rfl, hmarkup₁⟩
      refine ((h.strTerm c₁ hmarkup₁).and_left fun _ _ hrun =>
        hinside.reaches_strTerm hle₁ hrun).bind ?_
      rintro u _ v c₂ ⟨hle₂, hterm, rfl, hmarkup₂⟩
      have hlt : a.script.skipBlanks c.pos + 1 ≤ c₂.pos := hle₂.1
      refine ih ?_ hmarkup₂ (by omega) (by omega)
      rw [List.length_append, List.length_append, hfront, hterm]

private theorem str :
    Twins a.script b.script special (fun u v => v.length = u.length) a.str b.str := by
  intro c hc
  refine (h.strTerm c hc).bind ?_
  rintro u _ v c' ⟨hfirst, rfl, hc'⟩
  exact h.strTail hfirst hc' (by omega) (by omega)

/-- The target of an assignment is the same, and what is assigned has the same length. -/
theorem assignment : Twins a.script b.script special
    (fun u v => v.1 = u.1 ∧ u.2.SameLength v.2) a.assignment b.assignment := by
  rw [assignment_eq, assignment_eq]
  refine .andThen h.varRef fun target => .andThen skipBlanks fun _ => ?_
  refine .andThen (eat (by decide) (by decide)) fun equals => .ite (fun _ => ?_) fun _ => .throw _
  refine .andThen skipBlanks fun _ => .ite (fun _ => ?_) fun _ => ?_
  · exact .bind h.str fun u v hlength => .pure ⟨rfl, .str hlength⟩
  · exact .andThen h.int fun value => .pure ⟨rfl, .int value⟩

end SameLengths

end Scope

end NovelScript.Operand
