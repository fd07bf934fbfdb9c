import NovelScript.Proofs.Operand.Bounds
import NovelScript.Proofs.Script.Bounds
import NovelScript.Proofs.TextRun

/-!
# The elements of text

Which element comes next is decided by the bytes at the position, and by whether a button is open;
only what is done then depends on how text is cut and numbers are shown. So reading an element is
split in two: telling which one it is, and acting on it. Every element but the end of the line takes
at least one byte, which is why the bound on the number of elements is never reached.
-/

namespace NovelScript

namespace Script

/-- An element of text. -/
inductive Element where
  /-- The end of the line. -/
  | lineEnd
  /-- An explicit pause. -/
  | pause (stop : Pause)
  /-- A mark in front of a character that is no click marker. -/
  | unmark
  /-- A switch of narrow mode. -/
  | narrowSwitch
  /-- An integer variable or an array element. -/
  | int
  /-- A string variable. -/
  | str
  /-- A block of assignments. -/
  | block
  /-- The start of a button. -/
  | button
  /-- The end of a button. -/
  | buttonEnd
  /-- A piece without characters, up to an address. -/
  | mark (piece : TextPiece) (after : Nat)
  /-- A character. -/
  | character
  deriving DecidableEq, Repr

/-- The element of text at an address. -/
def element (s : Script) (buttonOpen : Bool) (pos : Nat) : Element :=
  match s.byte? pos with
  | none => .lineEnd
  | some b =>
    if b == Byte.newline then .lineEnd
    else if b == Byte.atSign then .pause .clickWait
    else if b == Byte.backslash then .pause .newPage
    else if b == Byte.underscore then .unmark
    else if b == Byte.backquote then .narrowSwitch
    else if (b == Byte.percent || b == Byte.question) && s.startsVariable pos then .int
    else if b == Byte.dollar && s.startsVariable pos then .str
    else if b == Byte.leftBrace && s.startsBlock pos then .block
    else if b == Byte.less && s.holdsAt (pos + 1) Byte.isDigit then .button
    else if b == Byte.greater && buttonOpen then .buttonEnd
    else if b == Byte.hash then
      match s.colour? pos with
      | some colour => .mark colour (pos + 7)
      | none => .character
    else if b == Byte.exclamation then
      match s.inlineCommand? pos with
      | some (piece, after) => .mark piece after
      | none => .character
    else .character

/-- A newline is next, or nothing more. -/
def AtLineEnd (s : Script) (pos : Nat) : Prop :=
  ∀ b ∈ s.byte? pos, b = Byte.newline

/-- What stands in the script where an element of text begins. -/
inductive Shows (s : Script) (buttonOpen : Bool) (pos : Nat) : Element → Prop where
  /-- The end of the line. -/
  | lineEnd (h : s.AtLineEnd pos) : Shows s buttonOpen pos .lineEnd
  /-- An at sign. -/
  | clickWait (h : s.byte? pos = some Byte.atSign) : Shows s buttonOpen pos (.pause .clickWait)
  /-- A backslash. -/
  | newPage (h : s.byte? pos = some Byte.backslash) : Shows s buttonOpen pos (.pause .newPage)
  /-- An underscore. -/
  | unmark (h : s.byte? pos = some Byte.underscore) : Shows s buttonOpen pos .unmark
  /-- A backquote. -/
  | narrowSwitch (h : s.byte? pos = some Byte.backquote) : Shows s buttonOpen pos .narrowSwitch
  /-- One of the sigils of integers, and the start of a variable. -/
  | int {b : UInt8} (h : s.byte? pos = some b) (hb : b = Byte.percent ∨ b = Byte.question)
      (hstart : s.startsVariable pos = true) : Shows s buttonOpen pos .int
  /-- A dollar sign, and the start of a variable. -/
  | str (h : s.byte? pos = some Byte.dollar) (hstart : s.startsVariable pos = true) :
      Shows s buttonOpen pos .str
  /-- A brace, and the start of a block. -/
  | block (h : s.byte? pos = some Byte.leftBrace) (hstart : s.startsBlock pos = true) :
      Shows s buttonOpen pos .block
  /-- A button mark, and a digit. -/
  | button (h : s.byte? pos = some Byte.less)
      (hdigit : s.holdsAt (pos + 1) Byte.isDigit = true) : Shows s buttonOpen pos .button
  /-- The mark of the end of an open button. -/
  | buttonEnd (h : s.byte? pos = some Byte.greater) (hopen : buttonOpen = true) :
      Shows s buttonOpen pos .buttonEnd
  /-- A colour. -/
  | colour {colour : TextPiece} (h : s.byte? pos = some Byte.hash)
      (hcolour : s.colour? pos = some colour) : Shows s buttonOpen pos (.mark colour (pos + 7))
  /-- An inline command. -/
  | command {piece : TextPiece} {after : Nat} (h : s.byte? pos = some Byte.exclamation)
      (hcommand : s.inlineCommand? pos = some (piece, after)) :
      Shows s buttonOpen pos (.mark piece after)
  /-- Anything but a newline. -/
  | character {b : UInt8} (h : s.byte? pos = some b) (hb : b ≠ Byte.newline) :
      Shows s buttonOpen pos .character

/-- What stands in the script decides on the element that is read. -/
theorem shows_element (s : Script) (buttonOpen : Bool) (pos : Nat) :
    s.Shows buttonOpen pos (s.element buttonOpen pos) := by
  unfold element
  split
  · next hnone => exact .lineEnd (by rw [AtLineEnd, hnone]; exact nofun)
  · next b hb =>
    have hbyte : ∀ {c : UInt8}, (b == c) = true → s.byte? pos = some c :=
      fun h => beq_iff_eq.mp h ▸ hb
    -- One case for each kind of element, in the order in which they are told apart.
    refine iteInduction (fun hnewline => .lineEnd ?_) fun hnewline =>
      iteInduction (fun hat => .clickWait (hbyte hat)) fun _ =>
      iteInduction (fun hbackslash => .newPage (hbyte hbackslash)) fun _ =>
      iteInduction (fun hunderscore => .unmark (hbyte hunderscore)) fun _ =>
      iteInduction (fun hbackquote => .narrowSwitch (hbyte hbackquote)) fun _ =>
      iteInduction (fun hint => ?_) fun _ => iteInduction (fun hstr => ?_) fun _ =>
      iteInduction (fun hblock => ?_) fun _ => iteInduction (fun hbutton => ?_) fun _ =>
      iteInduction (fun hend => ?_) fun _ => iteInduction (fun hhash => ?_) fun _ =>
      iteInduction (fun hexclamation => ?_) fun _ => .character hb (by simpa using hnewline)
    · rw [AtLineEnd, hb]
      rintro c ⟨⟩
      exact beq_iff_eq.mp hnewline
    · obtain ⟨hsigil, hstart⟩ := Bool.and_eq_true_iff.mp hint
      exact .int hb (by simpa using hsigil) hstart
    · obtain ⟨hdollar, hstart⟩ := Bool.and_eq_true_iff.mp hstr
      exact .str (hbyte hdollar) hstart
    · obtain ⟨hbrace, hstart⟩ := Bool.and_eq_true_iff.mp hblock
      exact .block (hbyte hbrace) hstart
    · obtain ⟨hless, hdigit⟩ := Bool.and_eq_true_iff.mp hbutton
      exact .button (hbyte hless) hdigit
    · obtain ⟨hgreater, hopen⟩ := Bool.and_eq_true_iff.mp hend
      exact .buttonEnd (hbyte hgreater) hopen
    · split
      · next colour hcolour => exact .colour (hbyte hhash) hcolour
      · exact .character hb (by simpa using hnewline)
    · split
      · next piece after hcommand => exact .command (hbyte hexclamation) hcommand
      · exact .character hb (by simpa using hnewline)

end Script

namespace TextReader.Setup

open NovelScript.Action (Keeps Reaches)

variable {setup : Setup} {p q : Progress} {stop : Option Pause}

/-- What is done at an element. -/
def act (setup : Setup) : Script.Element → Reader (Option Pause)
  | .lineEnd => return some .endOfLine
  | .pause stop => do
    moveTo ((← get).pos + 1)
    return some stop
  | .unmark => do
    modify fun p => { p with pos := p.pos + 1, unmarked := true }
    return none
  | .narrowSwitch => do
    let p ← get
    set { p with pos := p.pos + 1, narrow := !p.narrow }
    push (.narrowMode !p.narrow)
    return none
  | .int => do
    setup.interpolateInt
    return none
  | .str => do
    setup.interpolateStr
    return none
  | .block => do
    let p ← get
    moveTo (p.pos + 1)
    setup.block (setup.script.size - p.pos + 1)
    return none
  | .button => do
    setup.button
    return none
  | .buttonEnd => do
    modify fun p => { p with pos := p.pos + 1, buttonOpen := false }
    push .buttonEnd
    return none
  | .mark piece after => do
    moveTo after
    push piece
    return none
  | .character => setup.character

private theorem act_ite {c : Prop} [Decidable c] {x y : Reader (Option Pause)}
    {e f : Script.Element} (hx : x p = setup.act e p) (hy : y p = setup.act f p) :
    (if c then x else y) p = setup.act (if c then e else f) p := by
  split
  · exact hx
  · exact hy

/-- Reading an element is telling which one it is, and acting on it. -/
theorem element_eq (setup : Setup) (p : Progress) :
    setup.element p = setup.act (setup.script.element p.buttonOpen p.pos) p := by
  rw [element, Action.get_bind, Script.element]
  generalize setup.script.byte? p.pos = next
  cases next with
  | none => rfl
  | some b =>
    refine act_ite rfl <| act_ite rfl <| act_ite rfl <| act_ite rfl <| act_ite rfl <| act_ite rfl <|
      act_ite rfl <| act_ite rfl <| act_ite rfl <| act_ite rfl <| act_ite ?_ <| act_ite ?_ rfl
    · generalize setup.script.colour? p.pos = colour
      cases colour <;> rfl
    · generalize setup.script.inlineCommand? p.pos = command
      cases command <;> rfl

/-! ## Operands in text -/

/-- What operands in text are read in. -/
def scope (setup : Setup) (p : Progress) : Operand.Scope :=
  { script := setup.script, narrow := p.narrow, store := p.store, aliases := setup.aliases }

/-- An operand that is read without a warning only moves the position. -/
theorem operand_of_ok {α : Type} {read : Operand.Scope → Operand.Reader α} {value : α} {after : Nat}
    (h : read (setup.scope p) ⟨p.pos, []⟩ = .ok value ⟨after, []⟩) :
    setup.operand read p = .ok value { p with pos := after } := by
  have hrun : (read ⟨setup.script, p.narrow, p.store, setup.aliases⟩).run ⟨p.pos, []⟩ =
      .ok value ⟨after, []⟩ := h
  rw [operand, Action.get_bind, hrun]
  simp only [List.append_nil]
  rfl

/-! ## Every element takes a byte -/

/-- The position satisfies `P`. -/
def Stands (P : Nat → Prop) (p : Progress) : Prop :=
  P p.pos

/-- Reading an operand comes to where its reader comes to. -/
theorem reaches_operand {α : Type} {P Q : Nat → Prop} {read : Operand.Scope → Operand.Reader α}
    (hread : ∀ scope : Operand.Scope, scope.script = setup.script →
      Reaches (Operand.At P) (fun _ => Operand.At Q) (read scope)) :
    Reaches (Stands P) (fun _ => Stands Q) (setup.operand read) := by
  refine .get fun p hp => ?_
  dsimp only
  split
  · next value cursor hrun =>
    have hQ : Q cursor.pos := hread _ rfl (show Operand.At P { pos := p.pos } from hp) hrun
    exact .bind (.modify fun _ _ => hQ) fun _ => .pure fun _ h => h
  · exact .throw _

private theorem reaches_pushChars {P : Nat → Prop} (bytes : Bytes) :
    Reaches (Stands P) (fun _ => Stands P) (pushChars bytes) :=
  .modify fun _ h => h

private theorem reaches_push {P : Nat → Prop} (piece : TextPiece) :
    Reaches (Stands P) (fun _ => Stands P) (push piece) :=
  .modify fun _ h => h

variable {start : Nat}

/-- A block is read on from where it starts. -/
theorem reaches_block (assignments : Nat) :
    Reaches (Stands fun pos => start ≤ pos ∧ pos ≤ setup.script.size)
      (fun _ => Stands fun pos => start ≤ pos ∧ pos ≤ setup.script.size)
      (setup.block assignments) := by
  intro p u q hp h
  have hadmits := admits_edits ((setup.script.scans_inside start).line p.narrow) p.store
  have hmeets : Meets p.narrow (fun pos => start ≤ pos ∧ pos ≤ setup.script.size) (fun _ => True)
      (Store.Edits Store.Edit.Scripted p.store) p := ⟨rfl, hp, trivial, .refl⟩
  exact ((hadmits.keeps_block assignments).reaches hmeets h).pos

/-- An assignment in a block, and what follows it in the block. -/
def assignOn (setup : Setup) (count : Nat) : Reader Unit := do
  let (target, value) ← setup.operand Operand.Scope.assignment
  let store ← Action.ofExcept ((← get).store.write target value)
  modify fun p =>
    { p with store, pos := setup.script.eat Byte.comma (setup.script.skipBlanks p.pos) }
  setup.block count

/-- One round of a block, by the byte behind the blanks. -/
theorem block_succ_eq (setup : Setup) (count : Nat) (p : Progress) :
    setup.block (count + 1) p =
      (match setup.script.byte? (setup.script.skipBlanks p.pos) with
        | none => TextReader.warn .openBlock
        | some b =>
          if b == Byte.rightBrace then TextReader.moveTo (setup.script.skipBlanks p.pos + 1)
          else if b == Byte.newline then TextReader.warn .openBlock
          else setup.assignOn count : Reader Unit) { p with pos := setup.script.skipBlanks p.pos } :=
  rfl

/-- What follows an assignment in a block is read from behind it, inside the script. -/
theorem assignOn_congr {count count' : Nat} {p : Progress} (hpos : p.pos ≤ setup.script.size)
    (hblock : ∀ p', p.pos < p'.pos → p'.pos ≤ setup.script.size →
      setup.block count p' = setup.block count' p') :
    setup.assignOn count p = setup.assignOn count' p := by
  have hinside : Stands (fun pos => p.pos ≤ pos ∧ pos ≤ setup.script.size) p :=
    ⟨Nat.le_refl _, hpos⟩
  have hread : Reaches (Stands fun pos => p.pos ≤ pos ∧ pos ≤ setup.script.size)
      (fun _ => Stands fun pos => p.pos + 1 ≤ pos ∧ pos ≤ setup.script.size)
      (setup.operand Operand.Scope.assignment) :=
    reaches_operand fun scope hscope => hscope ▸ scope.reaches_assignment
  refine Action.bind_congr_of_ok fun assigned p' hrun => ?_
  obtain ⟨hlt, hle⟩ := hread hinside hrun
  obtain ⟨target, value⟩ := assigned
  dsimp only
  rw [Action.get_bind, Action.get_bind]
  cases hwrite : p'.store.write target value with
  | error fault => rfl
  | ok store =>
    rw [Action.ofExcept_bind_of_ok rfl, Action.ofExcept_bind_of_ok rfl]
    have hblanks := setup.script.le_skipBlanks p'.pos
    have heaten := setup.script.le_eat Byte.comma (setup.script.skipBlanks p'.pos)
    refine hblock _ (Nat.lt_of_lt_of_le hlt (hblanks.trans heaten)) ?_
    exact Script.eat_le_size Byte.comma (Script.skipBlanks_le_size hle)

/-- Every assignment of a block takes a byte, so that the bound on their number is never reached:
any two bounds that exceed the number of bytes left lead to the same. -/
theorem block_eq_of_size_lt {count count' : Nat} {p : Progress} (hpos : p.pos ≤ setup.script.size)
    (hcount : setup.script.size < p.pos + count) (hcount' : setup.script.size < p.pos + count') :
    setup.block count p = setup.block count' p := by
  induction count generalizing count' p with
  | zero => exact absurd hpos (by omega)
  | succ count ih =>
    obtain ⟨count', rfl⟩ : ∃ n, count' = n + 1 := ⟨count' - 1, by omega⟩
    have hblanks := setup.script.le_skipBlanks p.pos
    have hinside : setup.script.skipBlanks p.pos ≤ setup.script.size :=
      Script.skipBlanks_le_size hpos
    rw [block_succ_eq, block_succ_eq]
    generalize setup.script.skipBlanks p.pos = pos at hblanks hinside
    have hassign : setup.assignOn count { p with pos } = setup.assignOn count' { p with pos } := by
      refine assignOn_congr hinside fun p' (hlt : pos < p'.pos) hle => ?_
      exact ih hle (by omega) (by omega)
    cases setup.script.byte? pos with
    | none => rfl
    | some b =>
      dsimp only
      split_ifs
      · rfl
      · rfl
      · exact hassign

/-- What an element of the text leads to: a position behind its first byte, and no end of the
line. -/
def Passes (start : Nat) (stop : Option Pause) (p : Progress) : Prop :=
  stop ≠ some .endOfLine ∧ start < p.pos

private theorem reaches_pause {stop : Option Pause} (hstop : stop ≠ some .endOfLine) :
    Reaches (Stands (start < ·)) (Passes start) (pure stop : Reader (Option Pause)) :=
  .pure fun _ h => ⟨hstop, h⟩

private theorem reaches_moveTo {I : Progress → Prop} {pos : Nat} (h : start < pos) :
    Reaches I (fun _ => Stands (start < ·)) (moveTo pos) :=
  .modify fun _ _ => h

private theorem reaches_character (hlt : start < setup.script.size) :
    Reaches (Stands (· = start)) (Passes start) setup.character := by
  refine .get fun p hp => ?_
  have hinside : p.pos < setup.script.bytes.size := hp ▸ hlt
  have hwidth := setup.script.charWidth_pos p.narrow hinside
  have hafter : start < p.pos + setup.script.charWidth p.narrow p.pos := by
    rw [show p.pos = start from hp] at hwidth ⊢
    omega
  refine .bind (J := fun _ => Stands (start < ·)) (.modify fun _ _ => hafter) fun _ => ?_
  refine .bind (reaches_pushChars _) fun _ => .ite (fun _ => ?_) fun _ => ?_
  · exact reaches_pause nofun
  · exact reaches_pause nofun

private theorem reaches_interpolateInt (hlt : start < setup.script.size) :
    Reaches (Stands (· = start)) (fun _ => Stands (start < ·)) setup.interpolateInt := by
  have href : Reaches (Stands (· = start)) (fun _ => Stands (start < ·))
      (setup.operand Operand.Scope.intRef) := by
    refine reaches_operand fun scope hscope => scope.reaches_intRef.imp ?_ fun _ _ h => h.1
    exact fun c hc => hscope ▸ ⟨hc.ge, hc.le.trans hlt.le⟩
  exact .bind href fun target => .get fun p hp => .ofExcept_bind fun value _ => reaches_pushChars _

private theorem reaches_interpolateStr (hlt : start < setup.script.size) :
    Reaches (Stands (· = start)) (fun _ => Stands (start < ·)) setup.interpolateStr := by
  have hindex : Reaches (Stands (· = start)) (fun _ => Stands (start < ·))
      (setup.operand Operand.Scope.strIndex) := by
    refine reaches_operand fun scope hscope => scope.reaches_strIndex.imp ?_ fun _ _ h => h.1
    exact fun c hc => hscope ▸ ⟨hc.ge, hc.le.trans hlt.le⟩
  exact .bind hindex fun n => .get fun p hp => reaches_pushChars _

private theorem reaches_button :
    Reaches (Stands (· = start)) (fun _ => Stands (start < ·)) setup.button := by
  refine .get fun p hp => ?_
  have hafter := setup.script.le_advanceWhile Byte.isDigit (p.pos + 1)
  refine .bind (J := fun _ => Stands (start < ·)) (.modify fun _ _ => ?_) fun _ => reaches_push _
  exact Nat.lt_of_lt_of_le (show start < p.pos + 1 from hp ▸ p.pos.lt_succ_self) hafter

/-- Every element but the end of the line takes at least one byte. -/
theorem reaches_act {buttonOpen : Bool} {element : Script.Element}
    (hshows : setup.script.Shows buttonOpen start element) (hne : element ≠ .lineEnd) :
    Reaches (Stands (· = start)) (Passes start) (setup.act element) := by
  have hnext : ∀ p : Progress, p.pos = start → start < p.pos + 1 := fun p hp => hp ▸ p.pos.lt_succ_self
  cases hshows with
  | lineEnd => exact absurd rfl hne
  | clickWait | newPage =>
    refine .get fun p hp => .bind (reaches_moveTo (hnext p hp)) fun _ => ?_
    exact reaches_pause (by decide)
  | unmark =>
    exact .bind (J := fun _ => Stands (start < ·)) (.modify hnext) fun _ => reaches_pause nofun
  | narrowSwitch =>
    refine .get fun p hp => .bind (J := fun _ => Stands (start < ·)) (.modify fun _ _ => hnext p hp)
      fun _ => ?_
    exact .bind (reaches_push _) fun _ => reaches_pause nofun
  | int hb =>
    exact .bind (reaches_interpolateInt (Script.lt_size_of_byte? hb)) fun _ => reaches_pause nofun
  | str hb =>
    exact .bind (reaches_interpolateStr (Script.lt_size_of_byte? hb)) fun _ => reaches_pause nofun
  | block hb =>
    have hlt : start + 1 ≤ setup.script.size := Script.lt_size_of_byte? hb
    refine .get fun p hp => .bind (J := fun _ => Stands (· = start + 1)) (.modify fun _ _ => ?_)
      fun _ => ?_
    · exact congrArg (· + 1) hp
    · refine .bind ((reaches_block _).imp (fun _ h => ?_) fun _ _ h => h.1) fun _ => reaches_pause nofun
      exact ⟨h.ge, h.le.trans hlt⟩
  | button => exact .bind reaches_button fun _ => reaches_pause nofun
  | buttonEnd =>
    refine .bind (J := fun _ => Stands (start < ·)) (.modify hnext) fun _ => ?_
    exact .bind (reaches_push _) fun _ => reaches_pause nofun
  | colour =>
    have hafter : start < start + 7 := by omega
    refine .bind (reaches_moveTo hafter) fun _ => .bind (reaches_push _) fun _ => ?_
    exact reaches_pause nofun
  | command hb hcommand =>
    have hscans := (setup.script.scans_inside (start + 1)).line false
    have hafter := hscans.inlineCommand? hcommand ⟨Nat.le_refl _, Script.lt_size_of_byte? hb⟩
    refine .bind (reaches_moveTo hafter.1) fun _ => .bind (reaches_push _) fun _ => ?_
    exact reaches_pause nofun
  | character hb => exact reaches_character (Script.lt_size_of_byte? hb)

/-- An element that is read either takes a byte, or it is the end of the line. -/
theorem element_takes (h : setup.element p = .ok stop q) :
    (stop ≠ some .endOfLine ∧ p.pos < q.pos) ∨
      (stop = some .endOfLine ∧ q = p ∧ setup.script.AtLineEnd p.pos) := by
  rw [element_eq] at h
  have hshows := setup.script.shows_element p.buttonOpen p.pos
  generalize setup.script.element p.buttonOpen p.pos = element at h hshows
  by_cases hend : element = .lineEnd
  · subst hend
    cases hshows with
    | lineEnd hnewline =>
      cases h
      exact .inr ⟨rfl, rfl, hnewline⟩
  · exact .inl (reaches_act hshows hend rfl h)

/-- At the end of a line the element is the end of the line. -/
theorem element_of_atLineEnd (h : setup.script.AtLineEnd p.pos) :
    setup.element p = .ok (some .endOfLine) p := by
  rw [element_eq, Script.element]
  cases hb : setup.script.byte? p.pos with
  | none => rfl
  | some b =>
    rw [h b hb]
    rfl

/-! ## Reading to the end of a run -/

/-- The run goes on from the first state and ends with the pause in the second one. -/
def Ends (setup : Setup) (p : Progress) (stop : Pause) (q : Progress) : Prop :=
  ∀ count, setup.script.size < p.pos + count → setup.elements count p = .ok stop q

/-- At the end of a line a run ends at once. -/
theorem ends_of_atLineEnd (h : setup.script.AtLineEnd p.pos) : setup.Ends p .endOfLine p := by
  intro count _
  cases count with
  | zero => rfl
  | succ count => exact Action.bind_of_ok (element_of_atLineEnd h) _

/-- Over an element that is no pause the run goes on. -/
theorem Ends.of_element {middle : Progress} {stop : Pause} (h : setup.element p = .ok none middle)
    (hrest : setup.Ends middle stop q) : setup.Ends p stop q := by
  have hlt : p.pos < middle.pos := by
    rcases element_takes h with ⟨-, hlt⟩ | ⟨hend, -⟩
    · exact hlt
    · cases hend
  intro count hcount
  cases count with
  | zero =>
    have hend : setup.script.AtLineEnd p.pos :=
      fun b hb => absurd (Script.lt_size_of_byte? hb) (by omega)
    rw [element_of_atLineEnd hend] at h
    cases h
  | succ count => exact (Action.bind_of_ok h _).trans (hrest count (by omega))

/-- A run whose elements end with a pause ends with that pause, if no button is open. -/
theorem Ends.run {stop : Pause} (h : setup.Ends p stop q) (hclosed : q.buttonOpen = false) :
    setup.run p = .ok stop q := by
  rw [Setup.run, Action.get_bind, Action.bind_of_ok (h _ (by omega)), Action.get_bind, hclosed]
  rfl

end TextReader.Setup

end NovelScript
