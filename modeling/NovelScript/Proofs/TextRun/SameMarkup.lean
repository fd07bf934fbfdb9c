import NovelScript.Proofs.Operand.SameMarkup
import NovelScript.Proofs.TextRun.Elements

/-!
# Characters of two bytes are never taken for markup

Text looks for markup byte by byte, at many places in front of what it reads: for variables, blocks,
buttons, colours, inline commands and pauses. All these looks are made where a character begins. So
two lines with the same markup are read alike, element by element, whatever the second bytes of
their characters look like. Strings that the lines assign may differ, but they stay equally long.
-/

namespace NovelScript

namespace Script

/-! ## The same elements -/

private theorem hexDigit?_of_isLead {b : UInt8} (hlead : Text.ShiftJis.isLead b = true) :
    Byte.hexDigit? b = none := by
  have hnone := Text.ShiftJis.eq_false_of_isLead (p := fun b => (Byte.hexDigit? b).isSome)
    (fun _ hb => (Byte.inline_of_hexDigit? hb).1) hlead
  exact Option.not_isSome_iff_eq_none.mp (by rw [hnone]; exact Bool.false_ne_true)

private theorem hexPair?_eq (s : Script) (pos : Nat) :
    s.hexPair? pos = ((s.byte? pos).bind Byte.hexDigit?).bind fun high =>
      ((s.byte? (pos + 1)).bind Byte.hexDigit?).bind fun low =>
        some (UInt8.ofNat (high * 16 + low)) := by
  rw [hexPair?, Option.bind_assoc]
  refine congrArg (Option.bind (s.byte? pos)) (funext fun b => ?_)
  refine congrArg (Option.bind (Byte.hexDigit? b)) (funext fun high => ?_)
  exact (Option.bind_assoc ..).symm

/-- No variable begins with a character of two bytes behind its sigil. -/
theorem startsVariable_of_isLead {s : Script} {pos : Nat} {b : UInt8}
    (hb : s.byte? (pos + 1) = some b) (hlead : Text.ShiftJis.isLead b = true) :
    s.startsVariable pos = false := by
  have hnot := fun p hp => Text.ShiftJis.eq_false_of_isLead (p := p) hp hlead
  have hdigit := hnot Byte.isDigit fun _ hb => (Byte.inline_of_isDigit hb).1
  have hname := hnot Byte.isNameStart fun b hb =>
    (Byte.inline_of_isNameByte (Byte.isNameByte_of_isNameStart hb)).1
  rw [startsVariable, hb]
  dsimp only
  rw [hdigit, hname, Text.ShiftJis.beq_eq_false_of_isLead hlead (by decide),
    Text.ShiftJis.beq_eq_false_of_isLead hlead (by decide)]
  rfl

/-- No character of two bytes is markup. -/
theorem element_of_isLead {s : Script} {pos : Nat} {b : UInt8} {buttonOpen : Bool}
    (hb : s.byte? pos = some b) (hlead : Text.ShiftJis.isLead b = true) :
    s.element buttonOpen pos = .character := by
  have hne : ∀ {sign : UInt8}, sign < 0x80 → (b == sign) = false :=
    Text.ShiftJis.beq_eq_false_of_isLead hlead
  rw [element, hb]
  dsimp only
  rw [hne (by decide), hne (by decide), hne (by decide), hne (by decide), hne (by decide),
    hne (by decide), hne (by decide), hne (by decide), hne (by decide), hne (by decide),
    hne (by decide), hne (by decide), hne (by decide)]
  rfl

private theorem not_letter_of_isLead {b : UInt8} (hlead : Text.ShiftJis.isLead b = true) :
    b ∉ ([0x73, 0x77, 0x64] : Bytes) := by
  simp only [List.mem_cons, List.not_mem_nil, or_false]
  rintro (rfl | rfl | rfl)
  all_goals exact absurd hlead (by decide)

/-- Only three letters begin an inline command. -/
theorem inlineCommand?_eq_none {s : Script} {pos : Nat} {kind : UInt8}
    (hkind : s.byte? (pos + 1) = some kind) (hletter : kind ∉ ([0x73, 0x77, 0x64] : Bytes)) :
    s.inlineCommand? pos = none := by
  simp only [List.mem_cons, List.not_mem_nil, or_false, not_or] at hletter
  obtain ⟨hs, hw, hd⟩ := hletter
  rw [inlineCommand?, hkind]
  simp [hs, hw, hd]

namespace SameMarkup

variable {s t : Script} {special : Bytes → Bool} {pos : Nat}

private theorem hexDigit? (h : s.SameMarkup t special pos) :
    s.SameFound t special (fun _ => pos + 1) ((s.byte? pos).bind Byte.hexDigit?)
      ((t.byte? pos).bind Byte.hexDigit?) := by
  cases h.next with
  | finish hs ht | newline hs ht =>
    rw [hs, ht]
    exact .none
  | single hs ht _ _ _ hrest =>
    rw [hs, ht]
    exact ⟨rfl, fun _ _ => hrest⟩
  | double hs ht hlead hlead' =>
    rw [hs, ht, Option.bind_some, Option.bind_some, hexDigit?_of_isLead hlead,
      hexDigit?_of_isLead hlead']
    exact .none

private theorem hexPair? (h : s.SameMarkup t special pos) :
    s.SameFound t special (fun _ => pos + 2) (s.hexPair? pos) (t.hexPair? pos) := by
  rw [hexPair?_eq, hexPair?_eq]
  exact h.hexDigit?.bind fun _ h => h.hexDigit?.bind fun _ h => .some h

private theorem colour? (h : s.SameMarkup t special (pos + 1)) :
    s.SameFound t special (fun _ => pos + 7) (s.colour? pos) (t.colour? pos) :=
  h.hexPair?.bind fun _ h => h.hexPair?.bind fun _ h => h.hexPair?.bind fun _ h => .some h

private theorem inlineCommand? (h : s.SameMarkup t special (pos + 1)) :
    s.SameFound t special Prod.snd (s.inlineCommand? pos) (t.inlineCommand? pos) := by
  cases h.next with
  | finish hs ht =>
    rw [Script.inlineCommand?, Script.inlineCommand?, hs, ht]
    exact .none
  | newline hs ht =>
    rw [inlineCommand?_eq_none hs (by decide), inlineCommand?_eq_none ht (by decide)]
    exact .none
  | @single kind hs ht _ _ _ hstart =>
    obtain ⟨hsame, hslice, hafter⟩ := hstart.advanceWhile fun _ => Byte.inExpression_of_isDigit
    have hdefault := hstart.isAt (b := 0x64) (by decide)
    simp only [Script.inlineCommand?, hs, ht, Option.bind_eq_bind, Option.bind_some]
    rw [show pos + 1 + 1 = pos + 2 from rfl] at hsame hslice hafter hdefault hstart
    rw [hdefault, hsame, hslice]
    refine ⟨rfl, fun found hfound => ?_⟩
    split at hfound
    · next hmark =>
      cases hfound
      have hzero := beq_iff_eq.mp (Bool.and_eq_true_iff.mp hmark).2
      exact (hstart.succ hzero (by decide) (by decide)).2
    · obtain ⟨-, -, hfound⟩ := Option.bind_eq_some_iff.mp hfound
      split_ifs at hfound <;> cases hfound <;> exact hafter
  | double hs ht hlead hlead' =>
    rw [inlineCommand?_eq_none hs (not_letter_of_isLead hlead),
      inlineCommand?_eq_none ht (not_letter_of_isLead hlead')]
    exact .none

private theorem startsBlock (h : s.SameMarkup t special (pos + 1)) :
    t.startsBlock pos = s.startsBlock pos := by
  obtain ⟨hsame, hblanks⟩ := h.skipBlanks
  rw [Script.startsBlock, Script.startsBlock, hsame]
  exact hblanks.holdsAt fun b hb => (Byte.inline_of_inExpression (Byte.inExpression_of_isSigil hb)).1

private theorem startsVariable (hpos : s.SameMarkup t special pos)
    (h : s.SameMarkup t special (pos + 1)) : t.startsVariable pos = s.startsVariable pos := by
  have hquestion := hpos.isAt (b := Byte.question) (by decide)
  cases h.next with
  | finish hs ht | newline hs ht | single hs ht =>
    rw [Script.startsVariable, Script.startsVariable, hs, ht, hquestion]
  | double hs ht hlead hlead' =>
    rw [startsVariable_of_isLead hs hlead, startsVariable_of_isLead ht hlead']

/-- The next element is the same in both lines. -/
theorem element (h : s.SameMarkup t special pos) (buttonOpen : Bool) :
    t.element buttonOpen pos = s.element buttonOpen pos := by
  cases h.next with
  | finish hs ht => rw [Script.element, Script.element, hs, ht]
  | newline hs ht => rw [Script.element, Script.element, hs, ht]; rfl
  | single hs ht _ _ _ hrest =>
    rw [Script.element, Script.element, hs, ht, hrest.startsBlock, h.startsVariable hrest,
      hrest.holdsAt fun _ hb => (Byte.inline_of_isDigit hb).1,
      hrest.colour?.same, hrest.inlineCommand?.same]
  | double hs ht hlead hlead' => rw [element_of_isLead hs hlead, element_of_isLead ht hlead']

end SameMarkup

end Script

namespace TextPiece

/-- The same piece, or two pieces of characters that are equally long. -/
inductive SameLength : TextPiece → TextPiece → Prop
  /-- Characters. -/
  | chars {bytes bytes' : Bytes} (h : bytes'.length = bytes.length) :
      SameLength (.chars bytes) (.chars bytes')
  /-- Any piece. -/
  | same (piece : TextPiece) : SameLength piece piece

private theorem sameLength_pushChars {pieces pieces' : List TextPiece} {bytes bytes' : Bytes}
    (hpieces : List.Forall₂ SameLength pieces pieces') (hbytes : bytes'.length = bytes.length) :
    List.Forall₂ SameLength (pushChars pieces bytes) (pushChars pieces' bytes') := by
  induction hpieces with
  | nil => exact .cons (.chars hbytes) .nil
  | @cons piece piece' pieces pieces' hpiece hrest ih =>
    cases hrest with
    | nil =>
      cases hpiece with
      | chars hlast =>
        exact .cons (.chars (by rw [List.length_append, List.length_append, hlast, hbytes])) .nil
      | same =>
        cases piece with
        | chars last =>
          exact .cons (.chars (by rw [List.length_append, List.length_append, hbytes])) .nil
        | _ => exact .cons (.same _) (.cons (.chars hbytes) .nil)
    | cons hnext hrest =>
      rw [pushChars_cons fun _ _ => List.cons_ne_nil _ _,
        pushChars_cons fun _ _ => List.cons_ne_nil _ _]
      exact .cons hpiece ih

end TextPiece

namespace TextReader

open NovelScript.Action (Paired Reaches)
open NovelScript.Text.ShiftJis (beq_eq_false_of_isLead)

namespace Setup

variable {setup : Setup} {script : Script}

/-- Reading has come to the same place in two lines with the same markup, outside of narrow mode.
Only the bytes of strings differ, in the pieces so far and in the variables. -/
inductive Twin (setup : Setup) (script : Script) : Progress → Progress → Prop
  /-- Everything else is the same. -/
  | intro {p : Progress} (store : Store) (pieces : List TextPiece)
      (markup : setup.script.SameMarkup script setup.style.isClickMarker p.pos)
      (wide : p.narrow = false) (hstore : p.store.SameLengths store)
      (hpieces : List.Forall₂ TextPiece.SameLength p.pieces pieces) :
      Twin setup script p { p with store, pieces }

private theorem Twin.markup {p q : Progress} (h : setup.Twin script p q) :
    setup.script.SameMarkup script setup.style.isClickMarker p.pos := by
  obtain ⟨-, -, hmarkup, -, -, -⟩ := h
  exact hmarkup

/-- Two readers gave the same and have come to twin states, or they failed for the same reason. -/
abbrev EndAlike (setup : Setup) (script : Script) {α : Type} :
    EStateM.Result Fault Progress α → EStateM.Result Fault Progress α → Prop :=
  Paired fun a p b q => a = b ∧ setup.Twin script p q

/-- Started in twin states, the readers give what `R` relates and come to twin states, or they fail
for the same reason. -/
def Twins (setup : Setup) (script : Script) {α β : Type} (R : α → β → Prop) (r : Reader α)
    (r' : Reader β) : Prop :=
  ∀ p q, setup.Twin script p q →
    Paired (fun a p' b q' => R a b ∧ setup.Twin script p' q')
      (r p) (r' q)

namespace Twins

variable {α β γ δ : Type} {R : α → β → Prop} {S : γ → δ → Prop} {r : Reader α} {r' : Reader β}
  {f : α → Reader γ} {g : β → Reader δ}

/-- Two readers that answer at once, with related values. -/
protected theorem pure {a : α} {b : β} (h : R a b) : Twins setup script R (pure a) (pure b) :=
  fun _ _ hpq => .ok ⟨h, hpq⟩

/-- Related readers after related readers. -/
protected theorem bind (h : Twins setup script R r r')
    (hfg : ∀ a b, R a b → Twins setup script S (f a) (g b)) :
    Twins setup script S (r >>= f) (r' >>= g) := by
  intro p q hpq
  refine (h p q hpq).bind ?_
  rintro a p' b q' ⟨hab, hpq'⟩
  exact hfg a b hab p' q' hpq'

private theorem andThen {q q' : Reader α} {f g : α → Reader γ} {S : γ → γ → Prop}
    (h : Twins setup script Eq q q') (hfg : ∀ a, Twins setup script S (f a) (g a)) :
    Twins setup script S (q >>= f) (q' >>= g) :=
  h.bind fun a _ hab => hab ▸ hfg a

/-- Related readers on both ways. -/
protected theorem ite {c : Prop} [Decidable c] {q : Reader α} {q' : Reader β}
    (h : c → Twins setup script R r r') (hnot : ¬ c → Twins setup script R q q') :
    Twins setup script R (if c then r else q) (if c then r' else q') := by
  split
  · next hc => exact h hc
  · next hc => exact hnot hc

private theorem pushChars {bytes bytes' : Bytes} (h : bytes'.length = bytes.length) :
    Twins setup script Eq (pushChars bytes) (pushChars bytes') := by
  rintro p _ ⟨store, pieces, markup, wide, hstore, hpieces⟩
  exact .ok ⟨rfl, _, _, markup, wide, hstore, TextPiece.sameLength_pushChars hpieces h⟩

private theorem push (piece : TextPiece) : Twins setup script Eq (push piece) (push piece) := by
  rintro p _ ⟨store, pieces, markup, wide, hstore, hpieces⟩
  refine .ok ⟨rfl, _, _, markup, wide, hstore, ?_⟩
  exact List.rel_append hpieces (.cons (.same piece) .nil)

private theorem moveTo {pos : Nat}
    (h : setup.script.SameMarkup script setup.style.isClickMarker pos) :
    Twins setup script Eq (moveTo pos) (moveTo pos) := by
  rintro p _ ⟨store, pieces, -, wide, hstore, hpieces⟩
  exact .ok ⟨rfl, _, _, h, wide, hstore, hpieces⟩

private theorem warn (warning : Warning) : Twins setup script Eq (warn warning) (warn warning) := by
  rintro p _ ⟨store, pieces, markup, wide, hstore, hpieces⟩
  exact .ok ⟨rfl, _, _, markup, wide, hstore, hpieces⟩

private theorem operand {R : α → β → Prop} {read : Operand.Scope → Operand.Reader α}
    {read' : Operand.Scope → Operand.Reader β}
    (hread : ∀ {a b : Operand.Scope}, a.SameLengths b →
      Operand.Twins a.script b.script setup.style.isClickMarker R (read a) (read' b)) :
    Twins setup script R (setup.operand read) ({ setup with script }.operand read') := by
  rintro p _ ⟨store, pieces, markup, wide, hstore, hpieces⟩
  have hscope : (setup.scope p).SameLengths ({ setup with script }.scope { p with store, pieces }) :=
    ⟨wide, wide, rfl, hstore⟩
  have hpaired := hread hscope { pos := p.pos } markup
  unfold scope at hpaired
  rw [Setup.operand, Setup.operand, Action.get_bind, Action.get_bind]
  simp only [EStateM.run]
  generalize read _ _ = result at hpaired ⊢
  generalize read' _ _ = result' at hpaired ⊢
  cases hpaired with
  | ok h =>
    obtain ⟨hvalues, rfl, hmarkup⟩ := h
    exact .ok ⟨hvalues, _, _, hmarkup, wide, hstore, hpieces⟩
  | error fault => exact .error fault _ _

end Twins

private theorem twins_interpolateInt : Twins setup script Eq setup.interpolateInt
    { setup with script }.interpolateInt := by
  refine .andThen (.operand fun h => h.intRef) fun target => ?_
  rintro p _ ⟨store, pieces, markup, wide, hstore, hpieces⟩
  rw [Action.get_bind, Action.get_bind]
  dsimp only
  rw [hstore.readInt target, markup.leftEncoding, markup.rightEncoding]
  refine Paired.ofExcept_bind fun value _ => ?_
  exact Twins.pushChars rfl _ _ ⟨_, _, markup, wide, hstore, hpieces⟩

private theorem twins_interpolateStr : Twins setup script Eq setup.interpolateStr
    { setup with script }.interpolateStr := by
  refine .andThen (.operand fun h => h.strIndex) fun n => ?_
  rintro p _ ⟨store, pieces, markup, wide, hstore, hpieces⟩
  exact Twins.pushChars (hstore.str n) _ _ ⟨_, _, markup, wide, hstore, hpieces⟩

/-- A pause follows in both lines, or in none. -/
theorem pauseFollows_eq {pos : Nat}
    (h : setup.script.SameMarkup script setup.style.isClickMarker pos) :
    { setup with script }.pauseFollows false pos = setup.pauseFollows false pos := by
  obtain ⟨hwidth, hmarker⟩ := h.charWidth
  rw [pauseFollows, pauseFollows]
  dsimp only
  rw [hwidth, hmarker]
  cases h.next with
  | finish hs ht | newline hs ht | single hs ht => rw [hs, ht]
  | double hs ht hlead hlead' =>
    rw [hs, ht]
    dsimp only
    rw [beq_eq_false_of_isLead hlead (by decide), beq_eq_false_of_isLead hlead (by decide),
      beq_eq_false_of_isLead hlead' (by decide), beq_eq_false_of_isLead hlead' (by decide)]

private theorem paired_character {p q : Progress} {b : UInt8}
    (hb : setup.script.byte? p.pos = some b)
    (hnewline : b ≠ Byte.newline) (hpq : setup.Twin script p q) :
    setup.EndAlike script (setup.character p) ({ setup with script }.character q) := by
  obtain ⟨store, pieces, markup, wide, hstore, hpieces⟩ := hpq
  have hbehind := markup.behind hb hnewline
  obtain ⟨hwidth, hmarker⟩ := markup.charWidth
  rw [character, character, Action.get_bind, Action.get_bind]
  dsimp only
  rw [wide, hwidth, hmarker, pauseFollows_eq hbehind]
  have hrest : ∀ pause : Bool, Twins setup script Eq
      (if pause then pure (some Pause.clickWaitOrNewPage) else pure none)
      (if pause then pure (some Pause.clickWaitOrNewPage) else pure none) :=
    fun pause => .ite (fun _ => .pure rfl) fun _ => .pure rfl
  exact Twins.andThen (.pushChars (hbehind.length_slice p.pos)) (fun _ => hrest _) _ _
    ⟨_, _, hbehind, rfl, hstore, hpieces⟩

private theorem paired_button {p q : Progress}
    (hnext : setup.script.SameMarkup script setup.style.isClickMarker (p.pos + 1))
    (hpq : setup.Twin script p q) :
    setup.EndAlike script (setup.button p) ({ setup with script }.button q) := by
  obtain ⟨store, pieces, markup, wide, hstore, hpieces⟩ := hpq
  obtain ⟨hsame, hslice, hafter⟩ := hnext.advanceWhile fun _ => Byte.inExpression_of_isDigit
  rw [button, button, Action.get_bind, Action.get_bind]
  dsimp only
  rw [hsame, hslice]
  exact Twins.push _ _ _ ⟨_, _, hafter, wide, hstore, hpieces⟩

/-- An assignment is read alike if what follows it is. -/
theorem paired_assignOn {count count' : Nat} {p q : Progress} (hpq : setup.Twin script p q)
    (hblock : ∀ p' q', setup.Twin script p' q' → p.pos < p'.pos →
      setup.EndAlike script (setup.block count p') ({ setup with script }.block count' q')) :
    setup.EndAlike script (setup.assignOn count p) ({ setup with script }.assignOn count' q) := by
  have hinside : Stands (fun pos => p.pos ≤ pos ∧ pos ≤ setup.script.size) p :=
    ⟨Nat.le_refl _, hpq.markup.leftSize⟩
  have hbehind : ∀ assigned p', setup.operand Operand.Scope.assignment p = .ok assigned p' →
      p.pos < p'.pos := fun assigned p' hrun =>
    (reaches_operand (fun scope hscope => hscope ▸ scope.reaches_assignment) hinside hrun).1
  have hread := Twins.operand (fun h => h.assignment) p q hpq
  refine (hread.and_left hbehind).bind ?_
  rintro ⟨target, value⟩ p' ⟨target', value'⟩ _ ⟨hlt, ⟨htarget, hvalue⟩, store, pieces, markup, wide,
    hstore, hpieces⟩
  dsimp only at htarget hvalue ⊢
  rw [Action.get_bind, Action.get_bind, htarget]
  dsimp only
  rcases hstore.write target hvalue with ⟨fault, hwrite, hwrite'⟩ |
    ⟨after, after', hwrite, hwrite', hafter⟩
  · rw [hwrite, hwrite']
    exact .error fault _ _
  · obtain ⟨hskip, hskipped⟩ := markup.skipBlanks
    obtain ⟨heat, heaten⟩ := hskipped.eat (b := Byte.comma) (by decide) (by decide)
    have hblanks : p'.pos ≤ setup.script.skipBlanks p'.pos := setup.script.le_advanceWhile _ _
    have heats := setup.script.le_eat Byte.comma (setup.script.skipBlanks p'.pos)
    rw [hwrite, hwrite']
    show Paired _ (setup.block count { p' with
      store := after, pos := setup.script.eat Byte.comma (setup.script.skipBlanks p'.pos) })
      ({ setup with script }.block count' { p' with
        store := after', pieces, pos := script.eat Byte.comma (script.skipBlanks p'.pos) })
    rw [hskip, heat]
    exact hblock _ _ ⟨_, _, heaten, wide, hafter, hpieces⟩ (by dsimp only; omega)

/-- Every assignment takes a byte, so that both readers may read enough of them for what is left of
the scripts. -/
theorem paired_block {count count' : Nat} {p q : Progress} (hpq : setup.Twin script p q)
    (hcount : setup.script.size < p.pos + count) (hcount' : script.size < p.pos + count') :
    setup.EndAlike script (setup.block count p) ({ setup with script }.block count' q) := by
  induction count generalizing count' p q with
  | zero => exact absurd hpq.markup.leftSize (by omega)
  | succ count ih =>
    obtain ⟨store, pieces, markup, wide, hstore, hpieces⟩ := hpq
    have hright := markup.rightSize
    obtain ⟨count', rfl⟩ : ∃ n, count' = n + 1 := ⟨count' - 1, by omega⟩
    obtain ⟨hblanks, hstart⟩ := markup.skipBlanks
    have hle : p.pos ≤ setup.script.skipBlanks p.pos := setup.script.le_advanceWhile _ _
    rw [block_succ_eq, block_succ_eq]
    dsimp only
    rw [hblanks]
    generalize setup.script.skipBlanks p.pos = pos at hstart hle
    have htwin : setup.Twin script { p with pos } { p with pos, store, pieces } :=
      ⟨_, _, hstart, wide, hstore, hpieces⟩
    have hassign := paired_assignOn htwin fun p' q' htwin' (hlt : pos < p'.pos) =>
      ih htwin' (by omega) (show script.size < p'.pos + count' by omega)
    cases hstart.next with
    | finish hs ht | newline hs ht =>
      rw [hs, ht]
      exact Twins.warn _ _ _ htwin
    | @single b hs ht _ hnewline _ hnext =>
      rw [hs, ht]
      dsimp only
      rw [beq_eq_false_iff_ne.mpr hnewline]
      by_cases hbrace : (b == Byte.rightBrace) = true
      · rw [if_pos hbrace, if_pos hbrace]
        exact Twins.moveTo hnext _ _ htwin
      · rw [if_neg hbrace, if_neg hbrace]
        exact hassign
    | double hs ht hlead hlead' =>
      rw [hs, ht]
      dsimp only
      rw [beq_eq_false_of_isLead hlead (by decide),
        beq_eq_false_of_isLead hlead (by decide),
        beq_eq_false_of_isLead hlead' (by decide),
        beq_eq_false_of_isLead hlead' (by decide)]
      exact hassign

/-- What is done at an element is done alike. -/
theorem paired_act {element : Script.Element} {p q : Progress}
    (hshows : setup.script.Shows p.buttonOpen p.pos element) (hpq : setup.Twin script p q) :
    setup.EndAlike script (setup.act element p) ({ setup with script }.act element q) := by
  have hcopy := hpq
  obtain ⟨store, pieces, markup, wide, hstore, hpieces⟩ := hpq
  have hsucc : ∀ {b}, setup.script.byte? p.pos = some b → b < 0x80 → b ≠ Byte.newline →
      setup.script.SameMarkup script setup.style.isClickMarker (p.pos + 1) :=
    fun hb hascii hnewline => (markup.succ hb hascii hnewline).2
  have hnone : Twins setup script Eq (pure none) (pure (none : Option Pause)) := .pure rfl
  cases hshows with
  | lineEnd => exact .ok ⟨rfl, hcopy⟩
  | clickWait hb | newPage hb =>
    have hnext := hsucc hb (by decide) (by decide)
    exact .ok ⟨rfl, _, _, hnext, wide, hstore, hpieces⟩
  | unmark hb =>
    have hnext := hsucc hb (by decide) (by decide)
    exact .ok ⟨rfl, _, _, hnext, wide, hstore, hpieces⟩
  | narrowSwitch hb => exact absurd hb markup.byte?_ne_backquote
  | int => exact Twins.andThen twins_interpolateInt (fun _ => hnone) _ _ hcopy
  | str => exact Twins.andThen twins_interpolateStr (fun _ => hnone) _ _ hcopy
  | block hb =>
    have hnext := hsucc hb (by decide) (by decide)
    have htwin : setup.Twin script { p with pos := p.pos + 1 }
        { p with pos := p.pos + 1, store, pieces } :=
      ⟨_, _, hnext, wide, hstore, hpieces⟩
    have hread : setup.EndAlike script
        (setup.block (setup.script.size - p.pos + 1) { p with pos := p.pos + 1 })
        ({ setup with script }.block (script.size - p.pos + 1)
          { p with pos := p.pos + 1, store, pieces }) :=
      paired_block htwin (by dsimp only; omega) (by dsimp only; omega)
    refine hread.bind ?_
    rintro _ p' _ q' ⟨-, hpq'⟩
    exact .ok ⟨rfl, hpq'⟩
  | button hb =>
    have hnext := hsucc hb (by decide) (by decide)
    refine (paired_button hnext hcopy).bind ?_
    rintro _ p' _ q' ⟨-, hpq'⟩
    exact .ok ⟨rfl, hpq'⟩
  | buttonEnd hb =>
    have hnext := hsucc hb (by decide) (by decide)
    exact Twins.andThen (.push .buttonEnd) (fun _ => hnone) _ _ ⟨_, _, hnext, wide, hstore, hpieces⟩
  | @colour colour hb hcolour =>
    have hnext := hsucc hb (by decide) (by decide)
    have hafter := hnext.colour?.markup colour hcolour
    exact Twins.andThen (.moveTo hafter) (fun _ => .andThen (.push colour) fun _ => hnone) _ _ hcopy
  | @command piece after hb hcommand =>
    have hnext := hsucc hb (by decide) (by decide)
    have hafter := hnext.inlineCommand?.markup (piece, after) hcommand
    exact Twins.andThen (.moveTo hafter) (fun _ => .andThen (.push piece) fun _ => hnone) _ _ hcopy
  | character hb hnewline => exact paired_character hb hnewline hcopy

private theorem paired_element {p q : Progress} (hpq : setup.Twin script p q) :
    setup.EndAlike script (setup.element p) ({ setup with script }.element q) := by
  have hcopy := hpq
  obtain ⟨store, pieces, markup, wide, hstore, hpieces⟩ := hpq
  rw [element_eq, element_eq]
  dsimp only
  rw [markup.element]
  exact paired_act (setup.script.shows_element p.buttonOpen p.pos) hcopy

/-- Every element but the end of the line takes a byte, so that both readers may read enough of them
for what is left of the scripts. -/
theorem paired_elements {count count' : Nat} {p q : Progress} (hpq : setup.Twin script p q)
    (hcount : setup.script.size < p.pos + count) (hcount' : script.size < p.pos + count') :
    setup.EndAlike script (setup.elements count p) ({ setup with script }.elements count' q) := by
  induction count generalizing count' p q with
  | zero => exact absurd hpq.markup.leftSize (by omega)
  | succ count ih =>
    have hright := hpq.markup.rightSize
    obtain ⟨count', rfl⟩ : ∃ n, count' = n + 1 := ⟨count' - 1, by omega⟩
    have htakes : ∀ stop p', setup.element p = .ok stop p' → stop = none → p.pos < p'.pos := by
      intro stop p' hrun hstop
      rcases element_takes hrun with ⟨-, hlt⟩ | ⟨hend, -, -⟩
      · exact hlt
      · exact absurd (hstop.symm.trans hend) (Option.some_ne_none _).symm
    refine ((paired_element hpq).and_left htakes).bind ?_
    rintro stop p' _ q' ⟨hlt, rfl, hpq'⟩
    cases stop with
    | some pause => exact .ok ⟨rfl, hpq'⟩
    | none =>
      have hlt := hlt rfl
      exact ih hpq' (by omega) (by omega)

private theorem paired_run {p q : Progress} (hpq : setup.Twin script p q) :
    setup.EndAlike script (setup.run p) ({ setup with script }.run q) := by
  have hpos : q.pos = p.pos := by
    obtain ⟨store, pieces, -, -, -, -⟩ := hpq
    rfl
  rw [run, run, Action.get_bind, Action.get_bind]
  dsimp only
  refine (paired_elements hpq (by omega) (by omega)).bind ?_
  rintro stop p' _ q' ⟨rfl, hpq'⟩
  have hopen : q'.buttonOpen = p'.buttonOpen := by
    obtain ⟨store, pieces, -, -, -, -⟩ := hpq'
    rfl
  rw [Action.get_bind, Action.get_bind, hopen]
  exact Twins.ite (fun _ => .andThen (.warn _) fun _ => .pure rfl) (fun _ => .pure rfl) _ _ hpq'

end Setup

/-- Two runs that were delivered alike: only the bytes of their characters differ. -/
structure Delivery.Twin (delivery other : Delivery) : Prop where
  /-- The pieces are of the same kinds, and those of characters are equally long. -/
  pieces : List.Forall₂ TextPiece.SameLength delivery.run.pieces other.run.pieces
  /-- The pause is the same. -/
  stop : other.run.stop = delivery.run.stop
  /-- The runs begin at the same place. -/
  start : other.run.start = delivery.run.start
  /-- Reading goes on at the same place. -/
  next : other.next = delivery.next
  /-- It goes on in the same mode. -/
  narrow : other.narrow = delivery.narrow
  /-- The warnings are the same. -/
  warnings : other.warnings = delivery.warnings

/-- Both readers fail for the same reason, or they deliver twin runs and leave twin variables, and
the same markup lies ahead of where they go on. -/
inductive Setup.ReadAlike (setup : Setup) (script : Script) :
    Except Fault Delivery × Store → Except Fault Delivery × Store → Prop
  /-- Both fail. -/
  | error (fault : Fault) (store store' : Store) :
      ReadAlike setup script (.error fault, store) (.error fault, store')
  /-- Both deliver a run. -/
  | ok {delivery delivery' : Delivery} {store store' : Store} (h : delivery.Twin delivery')
      (hstore : store.SameLengths store') (wide : delivery.narrow = false)
      (markup : setup.script.SameMarkup script setup.style.isClickMarker delivery.next) :
      ReadAlike setup script (.ok delivery, store) (.ok delivery', store')

/-- **A character of two bytes is never taken for markup.** Two lines that are the same but for
characters of two bytes are read alike outside of narrow mode, if these are click markers in both
lines or in none, and no character is a backquote. The variables may be the same to begin with, or
differ in the bytes of strings. -/
theorem same_markup_read_alike {setup : Setup} {script : Script} {store store' : Store} {addr : Nat}
    (hmarkup : setup.script.SameMarkup script setup.style.isClickMarker addr)
    (hstore : store.SameLengths store') :
    setup.ReadAlike script (read setup store addr false)
      (read { setup with script } store' addr false) := by
  have htwin : setup.Twin script { pos := addr, narrow := false, store }
      { pos := addr, narrow := false, store := store' } := ⟨_, _, hmarkup, rfl, hstore, .nil⟩
  have hpaired := Setup.paired_run htwin
  rw [read, read, Nat.min_eq_left hmarkup.leftSize, Nat.min_eq_left hmarkup.rightSize]
  simp only [EStateM.run]
  generalize setup.run _ = result at hpaired ⊢
  generalize Setup.run _ _ = result' at hpaired ⊢
  cases hpaired with
  | error fault p q => exact .error fault _ _
  | ok h =>
    obtain ⟨rfl, store, pieces, markup, wide, hstore, hpieces⟩ := h
    exact .ok ⟨hpieces, rfl, rfl, rfl, rfl, rfl⟩ hstore wide markup

/-- A line of text with a variable, a block, an inline command, a button and a pause among
characters of two bytes, whose second bytes are given. -/
def overlappingLine (trails : List UInt8) : Bytes :=
  let char (n : Nat) : Bytes := [0x83, trails.getD n 0x40]
  char 0 ++ Bytes.ofText "%0" ++ char 1 ++ Bytes.ofText "\x7b$1=\"" ++ char 2 ++ Bytes.ofText "\"\x7d" ++
    char 3 ++ Bytes.ofText "$1" ++ char 4 ++ Bytes.ofText "!w10<3" ++ char 5 ++ Bytes.ofText ">@"

/-- What such a line is read with. -/
def overlapping (trails : List UInt8) : Setup where
  script := ⟨(overlappingLine trails).toArray, .shiftJis⟩
  aliases := {}
  style := { clickMarkers := [[0x81, 0x42]], wideDigits := false, numberPad := 0 }

/-- The second bytes look like markup of all kinds in the first line, and like letters in the second
one. -/
theorem same_markup_read_alike_overlapping :
    (overlapping [0x40, 0x5c, 0x7d, 0x7b, 0x5b, 0x60]).ReadAlike
        (overlapping [0x41, 0x42, 0x43, 0x44, 0x45, 0x46]).script
        (read (overlapping [0x40, 0x5c, 0x7d, 0x7b, 0x5b, 0x60]) (.blank 10 0) 0 false)
        (read (overlapping [0x41, 0x42, 0x43, 0x44, 0x45, 0x46]) (.blank 10 0) 0 false) ∧
      ((read (overlapping [0x41, 0x42, 0x43, 0x44, 0x45, 0x46]) (.blank 10 0) 0 false).1.toOption.map
        fun delivery => (delivery.run.pieces, delivery.run.stop, delivery.next)) =
        some ([.chars [0x83, 0x41, 0x30, 0x83, 0x42, 0x83, 0x44, 0x83, 0x43, 0x83, 0x45], .wait 10 true,
          .buttonStart 3, .chars [0x83, 0x46], .buttonEnd], .clickWait, 31) := by
  refine ⟨same_markup_read_alike ⟨rfl, rfl, by decide, by decide, ?_⟩ (.refl _), ?_⟩
  · show Bytes.SameMarkup _ (overlappingLine _) (overlappingLine _)
    repeat first
      | exact .finish
      | refine .single (by decide) (by decide) (by decide) ?_
      | refine .double (by decide) (by decide) (by decide) ?_
  · decide +kernel

end TextReader

end NovelScript
