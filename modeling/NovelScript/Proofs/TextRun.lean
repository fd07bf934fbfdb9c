import NovelScript.Proofs.Operand.Scanning
import NovelScript.Proofs.Operand.Targets
import NovelScript.Proofs.Store.WellFormed

/-!
# What reading text keeps

Reading a run of text moves its position as scans of one line of the script do, and writes variables
in blocks only. What is shown is made of slices of the script, of numbers, and of strings of
variables. So a property of addresses that such scans keep, a property of the variables that writing
keeps, and a property of strings that all those have, hold of what a run comes to, whether it
succeeds or fails. How characters are read depends on the mode, which only a backquote changes; the
property of addresses may depend on it, too.

In particular the position stays inside the script, and the variables are changed by edits only that
a script makes.
-/

namespace NovelScript

namespace TextPiece

/-- Adding characters leaves a first piece alone that they are not joined to. -/
theorem pushChars_cons {piece : TextPiece} {pieces : List TextPiece} {bytes : Bytes}
    (h : ∀ last, piece = chars last → pieces ≠ []) :
    pushChars (piece :: pieces) bytes = piece :: pushChars pieces bytes := by
  rw [pushChars]
  exact fun last hpiece hnil => h last hpiece hnil

/-- Adding characters adds them to the text. -/
theorem text_pushChars (pieces : List TextPiece) (bytes : Bytes) :
    (pushChars pieces bytes).flatMap text = pieces.flatMap text ++ bytes := by
  fun_induction pushChars pieces bytes with
  | case1 bytes => simp [text]
  | case2 last bytes => simp [text]
  | case3 piece pieces bytes hlast ih =>
    rw [List.flatMap_cons, ih, List.flatMap_cons, List.append_assoc]

end TextPiece

namespace Script

variable {s : Script} {pos : Nat} {piece : TextPiece}

private theorem text_of_colour? (h : s.colour? pos = some piece) : piece.text = [] := by
  obtain ⟨red, -, h⟩ := Option.bind_eq_some_iff.mp h
  obtain ⟨green, -, h⟩ := Option.bind_eq_some_iff.mp h
  obtain ⟨blue, -, h⟩ := Option.bind_eq_some_iff.mp h
  cases h
  rfl

private theorem text_of_inlineCommand? {after : Nat}
    (h : s.inlineCommand? pos = some (piece, after)) : piece.text = [] := by
  obtain ⟨kind, -, h⟩ := Option.bind_eq_some_iff.mp h
  dsimp only at h
  split at h
  · cases h
    rfl
  · obtain ⟨_, -, h⟩ := Option.bind_eq_some_iff.mp h
    repeat' split at h
    all_goals cases h
    all_goals rfl

end Script

namespace TextReader

open NovelScript.Action (Keeps Leads Gives Returns)

variable {mode : Bool} {P : Nat → Prop} {Q : Bytes → Prop} {R : Store → Prop}

/-- Text is read in the given mode, the position satisfies `P`, the text so far `Q`, and the
variables `R`. -/
structure Meets (mode : Bool) (P : Nat → Prop) (Q : Bytes → Prop) (R : Store → Prop)
    (p : Progress) : Prop where
  /-- The mode. -/
  mode : p.narrow = mode
  /-- The position. -/
  pos : P p.pos
  /-- The text so far. -/
  text : Q (p.pieces.flatMap TextPiece.text)
  /-- The variables. -/
  store : R p.store

private theorem keeps_push {piece : TextPiece} (h : piece.text = []) :
    Keeps (Meets mode P Q R) (push piece) := by
  refine .modify fun p hp => ⟨hp.mode, hp.pos, ?_, hp.store⟩
  simpa [h] using hp.text

private theorem keeps_warn (warning : Warning) : Keeps (Meets mode P Q R) (warn warning) :=
  .modify fun _ h => ⟨h.mode, h.pos, h.text, h.store⟩

private theorem keeps_moveTo {pos : Nat} (h : P pos) : Keeps (Meets mode P Q R) (moveTo pos) :=
  .modify fun _ hp => ⟨hp.mode, h, hp.text, hp.store⟩

namespace Setup

/-- The scans of a line keep `P` in the given mode, writing keeps `R`, and everything that can be
shown satisfies `Q`. -/
structure Admits (setup : Setup) (mode : Bool) (P : Nat → Prop) (Q : Bytes → Prop)
    (R : Store → Prop) : Prop where
  /-- The scans of a line. -/
  scans : setup.script.LineScans mode P
  /-- The slices of the script. -/
  slice : ∀ {start stop}, P start → P stop → Q (setup.script.slice start stop)
  /-- The aliases. -/
  aliases : ∀ {name value}, setup.aliases.string? name = some value → Q value
  /-- The numbers. -/
  number : ∀ value wide pad, Q (setup.script.encoding.formatNumber value wide pad)
  /-- What is joined. -/
  append : ∀ {front back}, Q front → Q back → Q (front ++ back)
  /-- The strings of variables. -/
  str : ∀ {store}, R store → ∀ n, Q (store.str n)
  /-- What a block writes. -/
  write : ∀ {store next target value}, R store → VariableRef.Numbered target → value.Meets Q →
    store.write target value = .ok next → R next

private theorem returns_operand (setup : Setup) {α : Type} {read : Operand.Scope → Operand.Reader α}
    {T : α → Prop} (hread : ∀ scope, Returns (read scope) T) : Returns (setup.operand read) T := by
  refine Action.Yields.look fun p value after h => ?_
  let scope : Operand.Scope :=
    { script := setup.script, narrow := p.narrow, store := p.store, aliases := setup.aliases }
  cases hrun : (read scope).run { pos := p.pos } with
  | ok found cursor =>
    simp only [scope, hrun] at h
    cases h
    exact hread _ _ _ _ hrun
  | error fault cursor =>
    simp only [scope, hrun] at h
    cases h

namespace Admits

variable {setup : Setup} (h : setup.Admits mode P Q R)
include h

private theorem keeps_pushChars {bytes : Bytes} (hbytes : Q bytes) :
    Keeps (Meets mode P Q R) (pushChars bytes) := by
  refine .modify fun p hp => ⟨hp.mode, hp.pos, ?_, hp.store⟩
  rw [TextPiece.text_pushChars]
  exact h.append hp.text hbytes

private theorem gives_operand {α : Type} {T : α → Prop} {read : Operand.Scope → Operand.Reader α}
    (hread : ∀ scope : Operand.Scope, scope.Admits P Q → Gives (Operand.At P) T (read scope)) :
    Gives (Meets mode P Q R) T (setup.operand read) := by
  refine .get fun p hp => ?_
  let scope : Operand.Scope :=
    { script := setup.script, narrow := p.narrow, store := p.store, aliases := setup.aliases }
  have hscans : scope.script.LineScans p.narrow P := hp.mode ▸ h.scans
  have hscope : scope.Admits P Q := ⟨hscans, h.slice, h.str hp.store, h.aliases, h.append⟩
  dsimp only
  split
  · next value cursor hrun =>
    obtain ⟨hpos, hvalue⟩ := Operand.of_run_eq_ok (hread scope hscope) hp.pos hrun
    exact .andThen (.set ⟨hp.mode, hpos, hp.text, hp.store⟩) fun _ => .pure hvalue
  · exact .throw _

private theorem keeps_operand {α : Type} {read : Operand.Scope → Operand.Reader α}
    (hread : ∀ scope : Operand.Scope, scope.Admits P Q → Keeps (Operand.At P) (read scope)) :
    Keeps (Meets mode P Q R) (setup.operand read) :=
  (h.gives_operand fun scope hscope => .ofKeeps (hread scope hscope)).keeps

private theorem keeps_interpolateInt : Keeps (Meets mode P Q R) setup.interpolateInt := by
  refine .bind (h.keeps_operand fun _ hscope => hscope.keeps_intRef) fun target => .get fun p _ => ?_
  exact .ofExcept_bind fun value _ => h.keeps_pushChars (h.number _ _ _)

private theorem keeps_interpolateStr : Keeps (Meets mode P Q R) setup.interpolateStr := by
  refine .bind (h.keeps_operand fun _ hscope => hscope.keeps_strIndex) fun n => .get fun p hp => ?_
  exact h.keeps_pushChars (h.str hp.store n)

/-- A block keeps what its scans and assignments keep. -/
theorem keeps_block (assignments : Nat) : Keeps (Meets mode P Q R) (setup.block assignments) := by
  induction assignments with
  | zero => exact .pure _
  | succ assignments ih =>
    refine .get fun p hp => ?_
    have hpos := h.scans.skipBlanks hp.pos
    refine .bind (keeps_moveTo hpos) fun _ => ?_
    split
    · exact keeps_warn _
    · next b hb =>
      refine .ite (fun hbrace => keeps_moveTo ?_) fun _ => .ite (fun _ => keeps_warn _) fun _ => ?_
      · exact h.scans.ascii hb (beq_iff_eq.mp hbrace ▸ by decide) hpos
      have hassign := h.gives_operand fun _ hscope => hscope.gives_assignment
      have htarget := setup.returns_operand Operand.Scope.returns_assignment
      refine hassign.keeps.seq fun s assigned s' hs hrun => ?_
      obtain ⟨target, value⟩ := assigned
      refine .get fun p hp => .ofExcept_bind fun store hstore => ?_
      refine .bind (.modify fun q hq => ⟨hq.mode, ?_, hq.text, ?_⟩) fun _ => ih
      · exact h.scans.eat (by decide) (h.scans.skipBlanks hq.pos)
      · exact h.write hp.store (htarget _ _ _ hrun) (hassign.gives hs hrun) hstore

/-- The character at the position is not the newline. -/
theorem leads_character {b : UInt8} (hnewline : b ≠ Byte.newline) :
    Leads (fun p => Meets mode P Q R p ∧ setup.script.byte? p.pos = some b) (Meets mode P Q R)
      setup.character := by
  refine .look fun p ⟨hp, hb⟩ => ?_
  have hafter := h.scans.char hb hnewline hp.pos
  rw [← hp.mode] at hafter
  refine (Keeps.bind (.set ⟨hp.mode, hafter, hp.text, hp.store⟩) fun _ => ?_) hp
  refine .bind (h.keeps_pushChars (h.slice hp.pos hafter)) fun _ => ?_
  exact .ite (fun _ => .pure _) fun _ => .pure _

/-- A button mark is there when its number is read. -/
theorem meets_button {p : Progress} (hp : Meets mode P Q R p) (hnext : P (p.pos + 1)) :
    Meets mode P Q R (Action.after setup.button p) := by
  have hafter := h.scans.advanceWhile (fun _ => Byte.inline_of_isDigit) hnext
  exact Keeps.bind (.set ⟨hp.mode, hafter, hp.text, hp.store⟩) (fun _ => keeps_push rfl) hp

/-- Elements other than the backquote are read in one mode. -/
theorem leads_element :
    Leads (fun p => Meets mode P Q R p ∧ setup.script.byte? p.pos ≠ some Byte.backquote)
      (Meets mode P Q R) setup.element := by
  refine .look fun p ⟨hp, hquote⟩ => ?_
  dsimp only
  split
  · exact hp
  · next b hb =>
    have hnext : ∀ c : UInt8, Byte.Inline c → (b == c) = true → P (p.pos + 1) := by
      intro c hc hbc
      exact h.scans.ascii hb (beq_iff_eq.mp hbc ▸ hc) hp.pos
    have hmove : ∀ c : UInt8, Byte.Inline c → (b == c) = true →
        Keeps (Meets mode P Q R) (moveTo (p.pos + 1)) :=
      fun c hc hbc => keeps_moveTo (hnext c hc hbc)
    -- One case for each kind of element, in the order in which they are told apart.
    refine Keeps.choose (fun _ => hp) fun hnewline => ?_
    have hcharacter := h.leads_character (fun hb => hnewline (beq_iff_eq.mpr hb)) ⟨hp, hb⟩
    refine Keeps.choose (fun hat => ?_) fun _ =>
      Keeps.choose (fun hbackslash => ?_) fun _ => Keeps.choose (fun hunderscore => ?_) fun _ =>
      Keeps.choose (fun hbackquote => ?_) fun _ => Keeps.choose (fun _ => ?_) fun _ =>
      Keeps.choose (fun _ => ?_) fun _ => Keeps.choose (fun hbrace => ?_) fun _ =>
      Keeps.choose (fun hless => ?_) fun _ => Keeps.choose (fun hgreater => ?_) fun _ =>
      Keeps.choose (fun hhash => ?_) fun _ => Keeps.choose (fun hmark => ?_) fun _ =>
      hcharacter
    · exact (Keeps.bind (hmove _ (by decide) hat) fun _ => .pure _) hp
    · exact (Keeps.bind (hmove _ (by decide) hbackslash) fun _ => .pure _) hp
    · have hafter := hnext _ (by decide) hunderscore
      exact (Keeps.bind (.set ⟨hp.mode, hafter, hp.text, hp.store⟩) fun _ => .pure _) hp
    · exact absurd (beq_iff_eq.mp hbackquote ▸ hb) hquote
    · exact (Keeps.bind h.keeps_interpolateInt fun _ => .pure _) hp
    · exact (Keeps.bind h.keeps_interpolateStr fun _ => .pure _) hp
    · refine (Keeps.bind (hmove _ (by decide) (Bool.and_eq_true_iff.mp hbrace).1) fun _ => ?_) hp
      exact .bind (h.keeps_block _) fun _ => .pure _
    · exact h.meets_button hp (hnext _ (by decide) (Bool.and_eq_true_iff.mp hless).1)
    · have hafter := hnext _ (by decide) (Bool.and_eq_true_iff.mp hgreater).1
      refine (Keeps.bind (.set ⟨hp.mode, hafter, hp.text, hp.store⟩) fun _ => ?_) hp
      exact .bind (keeps_push rfl) fun _ => .pure _
    · split
      · next colour hcolour =>
        have hafter := h.scans.colour? hcolour (hnext _ (by decide) hhash)
        refine (Keeps.bind (keeps_moveTo hafter) fun _ => ?_) hp
        exact .bind (keeps_push (Script.text_of_colour? hcolour)) fun _ => .pure _
      · exact hcharacter
    · split
      · next piece after hcommand =>
        have hafter := h.scans.inlineCommand? hcommand (hnext _ (by decide) hmark)
        refine (Keeps.bind (keeps_moveTo hafter) fun _ => ?_) hp
        exact .bind (keeps_push (Script.text_of_inlineCommand? hcommand)) fun _ => .pure _
      · exact hcharacter

end Admits

/-- The state of reading has the properties that go with its mode. -/
def Proceeds (P : Bool → Nat → Prop) (Q : Bytes → Prop) (R : Store → Prop) (p : Progress) : Prop :=
  Meets p.narrow (P p.narrow) Q R p

/-- What is admitted in either mode, if the property of addresses in the other mode holds behind a
backquote. -/
structure Carries (setup : Setup) (P : Bool → Nat → Prop) (Q : Bytes → Prop) (R : Store → Prop) :
    Prop where
  /-- Each mode. -/
  admits : ∀ mode, setup.Admits mode (P mode) Q R
  /-- The change of modes. -/
  backquote : ∀ {mode pos}, setup.script.byte? pos = some Byte.backquote → P mode pos →
    P (!mode) (pos + 1)

namespace Carries

variable {P : Bool → Nat → Prop} {setup : Setup} (h : setup.Carries P Q R)
include h

private theorem keeps_element : Keeps (Proceeds P Q R) setup.element := by
  intro p hp
  by_cases hquote : setup.script.byte? p.pos = some Byte.backquote
  · have hrun : setup.element p = .ok none { p with
        pos := p.pos + 1, narrow := !p.narrow, pieces := p.pieces ++ [.narrowMode !p.narrow] } := by
      rw [element, Action.get_bind, hquote]
      rfl
    rw [Action.after_of_ok hrun]
    refine ⟨rfl, h.backquote hquote hp.pos, ?_, hp.store⟩
    simpa [TextPiece.text] using hp.text
  · have hafter := (h.admits p.narrow).leads_element ⟨hp, hquote⟩
    rwa [← hafter.mode] at hafter

private theorem keeps_elements (count : Nat) : Keeps (Proceeds P Q R) (setup.elements count) := by
  induction count with
  | zero => exact .pure _
  | succ count ih =>
    refine .bind h.keeps_element fun pause => ?_
    cases pause with
    | some pause => exact .pure _
    | none => exact ih

/-- A run keeps what its elements keep. -/
theorem keeps_run : Keeps (Proceeds P Q R) setup.run := by
  refine .get fun p _ => .bind (h.keeps_elements _) fun stop => .get fun p _ => ?_
  refine .doIf (.modify fun p hp => ?_) (.pure _)
  exact ⟨hp.mode, hp.pos, hp.text, hp.store⟩

/-- What reading a run of text comes to. -/
theorem read {store : Store} {addr : Nat} {narrow : Bool}
    (haddr : P narrow (min addr setup.script.size)) (hnil : Q []) (hstore : R store) :
    R (TextReader.read setup store addr narrow).2 ∧
      ∀ delivery, (TextReader.read setup store addr narrow).1 = .ok delivery →
        P delivery.narrow delivery.next ∧ Q delivery.run.text := by
  have hstart : Proceeds P Q R { pos := min addr setup.script.size, narrow, store } :=
    ⟨rfl, haddr, hnil, hstore⟩
  have hmeets := h.keeps_run hstart
  rw [TextReader.read]
  split
  · next stop p hrun =>
    rw [Action.after_of_ok (show setup.run _ = _ from hrun)] at hmeets
    refine ⟨hmeets.store, fun delivery hdelivery => ?_⟩
    cases hdelivery
    exact ⟨hmeets.pos, hmeets.text⟩
  · next fault p hrun =>
    rw [Action.after_of_error (show setup.run _ = _ from hrun)] at hmeets
    exact ⟨hmeets.store, nofun⟩

end Carries

/-- What every scan of the script keeps does not depend on the mode. -/
theorem carries_of_scans {P : Nat → Prop} {setup : Setup} (hscans : setup.script.Scans P)
    (h : setup.Admits false P Q R) : setup.Carries (fun _ => P) Q R where
  admits mode := { h with scans := hscans.line mode }
  backquote hb hpos := hscans.ascii hb (by decide) hpos

/-- Reading only edits the variables, wherever it goes. -/
theorem admits_edits {setup : Setup} (hscans : setup.script.LineScans mode P) (start : Store) :
    setup.Admits mode P (fun _ => True) (Store.Edits Store.Edit.Scripted start) where
  scans := hscans
  slice _ _ := trivial
  aliases _ := trivial
  number _ _ _ := trivial
  append _ _ := trivial
  str _ _ := trivial
  write := by
    intro store next target value hedits htarget _ hwrite
    obtain ⟨edit, hscripted, hedit⟩ := Store.edit_of_write hwrite
    exact hedits.trans (Store.Edits.single edit (hscripted htarget) hedit)

/-- Reading stays inside the script, and only edits the variables. -/
theorem carries_inside (setup : Setup) (start : Store) :
    setup.Carries (fun _ pos => 0 ≤ pos ∧ pos ≤ setup.script.size) (fun _ => True)
      (Store.Edits Store.Edit.Scripted start) :=
  have hscans := setup.script.scans_inside 0
  carries_of_scans hscans (admits_edits (hscans.line false) start)

end Setup

private theorem inside_read (setup : Setup) (store : Store) (addr : Nat) (narrow : Bool) :
    Store.Edits Store.Edit.Scripted store (read setup store addr narrow).2 ∧
      ∀ delivery, (read setup store addr narrow).1 = .ok delivery →
        (0 ≤ delivery.next ∧ delivery.next ≤ setup.script.size) ∧ True :=
  (setup.carries_inside store).read ⟨Nat.zero_le _, Nat.min_le_right _ _⟩ trivial .refl

variable {setup : Setup} {store : Store} {addr : Nat} {narrow : Bool}

/-- Reading a run of text comes to an address of the script. -/
theorem next_read_le_size {delivery : Delivery}
    (h : (read setup store addr narrow).1 = .ok delivery) :
    delivery.next ≤ setup.script.size :=
  ((inside_read setup store addr narrow).2 delivery h).1.2

/-- Reading a run of text only edits the variables. -/
theorem edits_read (setup : Setup) (store : Store) (addr : Nat) (narrow : Bool) :
    Store.Edits Store.Edit.Scripted store (read setup store addr narrow).2 :=
  (inside_read setup store addr narrow).1

end TextReader

end NovelScript
