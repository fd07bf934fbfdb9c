import NovelScript.Proofs.Expression.Reading
import NovelScript.Proofs.Script.Walks
import NovelScript.Proofs.TextRun.Elements

/-!
# Variables in text

Text without marks is shown as it is, character by character, and a reference to a variable in it is
shown as the value of the variable. References are read by the readers of operands. These leave the
blanks behind a number alone, but pass over the blanks behind the indices of an array element, which
are then missing in the text.
-/

namespace NovelScript

namespace Byte

/-- A byte that has a meaning in text. -/
def isTextMark (b : UInt8) : Bool :=
  [newline, atSign, backslash, underscore, backquote, percent, question, dollar, leftBrace, less,
    greater, hash, exclamation].contains b

end Byte

namespace TextPiece

/-- Adds characters, if there are any. -/
def joined (pieces : List TextPiece) (bytes : Bytes) : List TextPiece :=
  if bytes.isEmpty then pieces else pushChars pieces bytes

private theorem pushChars_ne_nil (pieces : List TextPiece) (bytes : Bytes) :
    pushChars pieces bytes ≠ [] := by
  fun_cases pushChars pieces bytes <;> exact List.cons_ne_nil _ _

private theorem pushChars_pushChars (pieces : List TextPiece) (bytes more : Bytes) :
    pushChars (pushChars pieces bytes) more = pushChars pieces (bytes ++ more) := by
  fun_induction pushChars pieces bytes with
  | case1 bytes => rfl
  | case2 last bytes => simp only [pushChars, List.append_assoc]
  | case3 piece pieces bytes hlast ih =>
    rw [pushChars_cons fun _ _ => pushChars_ne_nil _ _, ih]
    exact (pushChars_cons fun last hpiece hnil => hlast last hpiece hnil).symm

private theorem joined_joined (pieces : List TextPiece) (bytes more : Bytes) :
    joined (joined pieces bytes) more = joined pieces (bytes ++ more) := by
  cases bytes with
  | nil => rfl
  | cons b bytes =>
    cases more with
    | nil => simp only [joined, List.isEmpty_nil, if_true, List.append_nil]
    | cons c more => exact pushChars_pushChars ..

/-- Behind characters by themselves further ones are joined to them. -/
theorem pushChars_joined_nil (bytes more : Bytes) :
    pushChars (joined [] bytes) more = [chars (bytes ++ more)] := by
  cases bytes <;> rfl

private theorem joined_chars (bytes more : Bytes) :
    joined [chars bytes] more = [chars (bytes ++ more)] := by
  cases more with
  | nil => rw [List.append_nil]; rfl
  | cons b more => rfl

end TextPiece

namespace Script

/-- Where a byte without a meaning in text stands, a character does. -/
theorem element_of_not_isTextMark {s : Script} {pos : Nat} {b : UInt8} (hb : s.byte? pos = some b)
    (hmark : Byte.isTextMark b = false) (buttonOpen : Bool) :
    s.element buttonOpen pos = .character := by
  have hne : ∀ {c : UInt8}, Byte.isTextMark c = true → s.byte? pos ≠ some c := by
    rintro c hc h
    obtain rfl : b = c := Option.some.inj (hb.symm.trans h)
    rw [hmark] at hc
    cases hc
  have hshows := s.shows_element buttonOpen pos
  generalize s.element buttonOpen pos = element at hshows ⊢
  cases hshows with
  | character => rfl
  | lineEnd h => exact absurd (h b hb ▸ hb) (hne (by decide))
  | int h hsigil =>
    rcases hsigil with rfl | rfl
    · exact absurd h (hne (by decide))
    · exact absurd h (hne (by decide))
  | clickWait h | newPage h | unmark h | narrowSwitch h | str h | block h | button h | buttonEnd h
  | colour h | command h => exact absurd h (hne (by decide))

private theorem element_of_int {s : Script} {pos : Nat} {b : UInt8} (hb : s.byte? pos = some b)
    (hsigil : b = Byte.percent ∨ b = Byte.question) (hstart : s.startsVariable pos = true)
    (buttonOpen : Bool) : s.element buttonOpen pos = .int := by
  rw [element, hb]
  rcases hsigil with rfl | rfl
  · simp only [hstart, Bool.and_true]
    rfl
  · simp only [hstart, Bool.and_true]
    rfl

private theorem element_of_str {s : Script} {pos : Nat} (hb : s.byte? pos = some Byte.dollar)
    (hstart : s.startsVariable pos = true) (buttonOpen : Bool) :
    s.element buttonOpen pos = .str := by
  rw [element, hb]
  simp only [hstart, Bool.and_true]
  rfl

end Script

namespace TextReader

open NovelScript.Expression

/-! ## Text without marks -/

/-- Whole characters that are shown as they are, without click markers. -/
inductive Plain (encoding : Encoding) (style : TextStyle) (narrow : Bool) : Bytes → Prop where
  /-- No character. -/
  | nil : Plain encoding style narrow []
  /-- A character in front of others. -/
  | cons {b : UInt8} {more rest : Bytes} (whole : (b :: more).length = encoding.width narrow b)
      (shown : Byte.isTextMark b = false) (unmarked : style.isClickMarker (b :: more) = false)
      (hrest : Plain encoding style narrow rest) : Plain encoding style narrow (b :: more ++ rest)

variable {setup : Setup} {narrow : Bool} {p q : Progress} {text rest : Bytes}

namespace Setup

/-- A character without a meaning is added to what is shown. -/
theorem element_of_char {b : UInt8} {more : Bytes}
    (hahead : setup.script.ahead p.pos = b :: more ++ rest) (hunmarked : p.unmarked = false)
    (hwhole : (b :: more).length = setup.script.encoding.width p.narrow b)
    (hshown : Byte.isTextMark b = false) (hmarker : setup.style.isClickMarker (b :: more) = false) :
    setup.element p = .ok none { p with
      pos := p.pos + (b :: more).length
      pieces := TextPiece.pushChars p.pieces (b :: more) } := by
  have hb : setup.script.byte? p.pos = some b := by rw [Script.byte?_eq_head?, hahead]; rfl
  have hwidth : setup.script.charWidth p.narrow p.pos = (b :: more).length := by
    have hlength := congrArg List.length hahead
    rw [Script.length_ahead, List.length_append] at hlength
    rw [Script.charWidth_of_byte? hb, ← hwhole]
    omega
  obtain ⟨pos, narrow, store, pieces, unmarked, buttonOpen, warnings⟩ := p
  obtain rfl : unmarked = false := hunmarked
  rw [element_eq, Script.element_of_not_isTextMark hb hshown, act, character, Action.get_bind, hwidth,
    Script.slice_append hahead, hmarker]
  rfl

/-- Text without marks is shown as it is. -/
theorem Ends.of_plain {stop : Pause} (htext : Plain setup.script.encoding setup.style p.narrow text)
    (hahead : setup.script.ahead p.pos = text ++ rest) (hunmarked : p.unmarked = false)
    (hrest : setup.Ends { p with
      pos := p.pos + text.length
      pieces := TextPiece.joined p.pieces text } stop q) : setup.Ends p stop q := by
  generalize hmode : p.narrow = narrow at htext
  induction htext generalizing p with
  | nil => exact hrest
  | @cons b more further hwhole hshown hmarker _ ih =>
    have hahead' : setup.script.ahead p.pos = b :: more ++ (further ++ rest) := by
      rw [hahead, List.append_assoc]
    refine .of_element (element_of_char hahead' hunmarked (hmode ▸ hwhole) hshown hmarker) ?_
    refine ih (Script.ahead_add_length hahead') hunmarked ?_ hmode
    rw [List.length_append, ← Nat.add_assoc] at hrest
    exact TextPiece.joined_joined p.pieces (b :: more) further ▸ hrest

end Setup

/-! ## References -/

/-- A variable in text. -/
inductive Reference where
  /-- An integer variable or an array element. -/
  | int (target : Target)
  /-- A string variable. -/
  | str (number : Index)

namespace Reference

/-- The ways to write a variable in text. -/
def Written (aliases : Aliases) : Reference → Bytes → Prop
  | int target, text => target.Written aliases text
  | str number, text => ∃ digits, text = Byte.dollar :: digits ∧ number.Written aliases digits

/-- Whether text takes the reference for a variable: it does not if an array is told by a name. -/
def isVariable : Reference → Bool
  | int (.element (.constant (.named _)) _) => false
  | _ => true

/-- Whether the text of the reference ends in an array element. -/
def endsInElement : Reference → Bool
  | int target => target.endsInElement
  | str number => number.endsInElement

/-- What is shown for the variable. -/
def rendering? (setup : Setup) (store : Store) (narrow : Bool) : Reference → Option Bytes
  | int target => do
    let reference ← target.reference? store setup.aliases
    let value ← (store.readInt reference).toOption
    return setup.script.encoding.formatNumber value (setup.style.wideDigits && !narrow)
      setup.style.numberPad
  | str number => do
    let n ← number.value? store setup.aliases
    let slot ← (Store.index n).toOption
    return store.str slot

end Reference

/-- The number after a sigil begins with a digit, with a sigil, or with a name. -/
theorem index_opens {aliases : Aliases} {number : Index} (h : number.Written aliases text) :
    ∃ b more, text = b :: more ∧
      (Byte.isDigit b || b == Byte.percent || b == Byte.question ||
        (Byte.isNameStart b && number matches .constant (.named _))) = true := by
  cases number with
  | constant number =>
    obtain ⟨b, more, rfl, hb⟩ := Constant.opens h
    refine ⟨b, more, rfl, ?_⟩
    cases number with
    | literal n => simp [show Byte.isDigit b = true from hb]
    | named name => simp [show Byte.isNameStart b = true from hb]
  | read target =>
    obtain ⟨b, more, rfl, hb⟩ := Target.opens h
    refine ⟨b, more, rfl, ?_⟩
    rcases hb with rfl | rfl <;> rfl

/-- The sigil in front of a number starts a variable, unless it is that of an array and a name
follows. -/
theorem startsVariable_of_index {s : Script} {pos : Nat} {sigil : UInt8} {number : Index}
    {aliases : Aliases} (h : number.Written aliases text)
    (hahead : s.ahead pos = sigil :: (text ++ rest))
    (hname : sigil = Byte.question → (number matches .constant (.named _)) = false) :
    s.startsVariable pos = true := by
  obtain ⟨b, more, rfl, hb⟩ := index_opens h
  have hnext : s.byte? (pos + 1) = some b := by
    rw [Script.byte?_eq_head?, Script.ahead_succ hahead]
    rfl
  rw [Script.startsVariable, hnext]
  dsimp only
  split
  · rfl
  · next hplain =>
    rw [Bool.not_eq_true] at hplain
    rw [hplain, Bool.false_or, Bool.and_eq_true] at hb
    have hsigil : (sigil == Byte.question) = false := by
      refine beq_eq_false_iff_ne.mpr fun h => ?_
      rw [hname h] at hb
      exact absurd hb.2 (by decide)
    rw [Script.isAt_cons hahead, hsigil, hb.1]
    rfl

namespace Setup

variable {gap : Bytes}

/-- What follows a reference keeps it apart from what it ends in. -/
theorem boundary_of_rest (inName : Bool) {inElement : Bool} (hrest : NotBlank rest)
    (hname : ∀ b ∈ (gap ++ rest).head?, Byte.isNameByte b = false)
    (hbracket : inElement = true → ∀ b ∈ rest.head?, b ≠ Byte.leftBracket) :
    Boundary inName inElement gap rest where
  notBlank := hrest
  notBracket := hbracket
  apart b hb h := by
    rw [hname b hb] at h
    cases h

/-- The bound on the calls of a reader is large enough for every text ahead. -/
theorem le_callBound {pos : Nat} (scope : Operand.Scope)
    (hahead : scope.script.ahead pos = text ++ gap ++ rest) :
    4 * text.length + 1 ≤ scope.callBound pos := by
  have hlength := congrArg List.length hahead
  simp only [Script.length_ahead, List.length_append] at hlength
  unfold Operand.Scope.callBound
  omega

/-- A reference to an integer variable stands where text takes it for a variable. -/
theorem element_eq_int {target : Target} {aliases : Aliases} {s : Script} {pos : Nat}
    (hwritten : target.Written aliases text) (hvariable : (Reference.int target).isVariable = true)
    (hahead : s.ahead pos = text ++ rest) (buttonOpen : Bool) :
    s.element buttonOpen pos = .int := by
  obtain ⟨b, more, htext, hsigil⟩ := Target.opens hwritten
  have hb : s.byte? pos = some b := by
    rw [Script.byte?_eq_head?, hahead, htext]
    rfl
  refine Script.element_of_int hb hsigil ?_ buttonOpen
  cases target with
  | slot number =>
    obtain ⟨digits, rfl, hdigits⟩ := hwritten
    exact startsVariable_of_index hdigits hahead nofun
  | element number subscripts =>
    obtain ⟨digits, space, indices, rfl, -, hdigits, -⟩ := hwritten
    have hahead' : s.ahead pos = Byte.question :: (digits ++ (space ++ indices ++ rest)) := by
      simpa using hahead
    refine startsVariable_of_index hdigits hahead' fun _ => ?_
    cases number with
    | constant number =>
      cases number with
      | literal n => rfl
      | named name => cases hvariable
    | read target => rfl

/-- An integer variable or an array element is shown as its value. -/
theorem interpolateInt_of_written {target : Target} {rendering : Bytes}
    (hwritten : target.Written setup.aliases text)
    (hrendering : (Reference.int target).rendering? setup p.store p.narrow = some rendering)
    (hahead : setup.script.ahead p.pos = text ++ gap ++ rest) (hgap : Blank gap)
    (hboundary : Boundary target.endsInName target.endsInElement gap rest) :
    setup.interpolateInt p = .ok () { p with
      pos := p.pos + text.length + if target.endsInElement then gap.length else 0
      pieces := TextPiece.pushChars p.pieces rendering } := by
  obtain ⟨reference, hreference, hrendering⟩ := Option.bind_eq_some_iff.mp hrendering
  obtain ⟨value, hvalue, hrendering⟩ := Option.bind_eq_some_iff.mp hrendering
  obtain rfl := Option.some.inj hrendering
  have hcalls := le_callBound (setup.scope p) hahead
  have hreads := (readsWithin (setup.scope p) ((setup.scope p).callBound p.pos)).target [] hwritten
    hgap hboundary hahead (by omega)
  rw [show target.reference? (setup.scope p).store (setup.scope p).aliases = some reference
    from hreference] at hreads
  have href : (setup.scope p).intRef ⟨p.pos, []⟩ = .ok reference
      ⟨p.pos + text.length + if target.endsInElement then gap.length else 0, []⟩ := hreads
  rw [interpolateInt, Action.bind_of_ok (operand_of_ok href), Action.get_bind,
    Action.ofExcept_bind_of_ok (Action.eq_ok_of_toOption hvalue)]
  rfl

/-- A string variable is shown as its string. -/
theorem interpolateStr_of_written {number : Index} {digits rendering : Bytes}
    (hwritten : number.Written setup.aliases digits)
    (hrendering : (Reference.str number).rendering? setup p.store p.narrow = some rendering)
    (hahead : setup.script.ahead p.pos = Byte.dollar :: (digits ++ gap ++ rest)) (hgap : Blank gap)
    (hboundary : Boundary number.endsInName number.endsInElement gap rest) :
    setup.interpolateStr p = .ok () { p with
      pos := p.pos + 1 + digits.length + if number.endsInElement then gap.length else 0
      pieces := TextPiece.pushChars p.pieces rendering } := by
  obtain ⟨n, hn, hrendering⟩ := Option.bind_eq_some_iff.mp hrendering
  obtain ⟨slot, hslot, hrendering⟩ := Option.bind_eq_some_iff.mp hrendering
  obtain rfl := Option.some.inj hrendering
  have hdigits := Script.ahead_succ hahead
  have hcalls := le_callBound (setup.scope p) hdigits
  have hreads := (readsWithin (setup.scope p) ((setup.scope p).callBound (p.pos + 1))).index []
    hwritten hgap hboundary hdigits hcalls
  rw [show number.value? (setup.scope p).store (setup.scope p).aliases = some n from hn] at hreads
  have hindex : (setup.scope p).strIndex ⟨p.pos, []⟩ = .ok slot
      ⟨p.pos + 1 + digits.length + if number.endsInElement then gap.length else 0, []⟩ := by
    have hnumber : (setup.scope p).index ⟨p.pos + 1, []⟩ = .ok n
        ⟨p.pos + 1 + digits.length + if number.endsInElement then gap.length else 0, []⟩ := hreads
    rw [Operand.Scope.strIndex, Action.bind_of_ok (eat_of_ahead hahead), if_pos rfl,
      Action.bind_of_ok hnumber, Action.eq_ok_of_toOption hslot]
    rfl
  rw [interpolateStr, Action.bind_of_ok (operand_of_ok hindex)]
  rfl

/-- Where a reference stands, it is shown as its value, and the blanks behind an array element are
passed over. -/
theorem element_of_reference {reference : Reference} {rendering : Bytes}
    (hwritten : reference.Written setup.aliases text) (hvariable : reference.isVariable = true)
    (hrendering : reference.rendering? setup p.store p.narrow = some rendering)
    (hahead : setup.script.ahead p.pos = text ++ gap ++ rest) (hgap : Blank gap)
    (hrest : NotBlank rest) (hname : ∀ b ∈ (gap ++ rest).head?, Byte.isNameByte b = false)
    (hbracket : reference.endsInElement = true → ∀ b ∈ rest.head?, b ≠ Byte.leftBracket) :
    setup.element p = .ok none { p with
      pos := p.pos + text.length + if reference.endsInElement then gap.length else 0
      pieces := TextPiece.pushChars p.pieces rendering } := by
  rw [element_eq]
  cases reference with
  | int target =>
    rw [element_eq_int hwritten hvariable (hahead.trans (List.append_assoc _ _ _))]
    exact Action.bind_of_ok (interpolateInt_of_written hwritten hrendering hahead hgap
      (boundary_of_rest _ hrest hname hbracket)) _
  | str number =>
    obtain ⟨digits, rfl, hdigits⟩ := hwritten
    have hb : setup.script.byte? p.pos = some Byte.dollar := by
      rw [Script.byte?_eq_head?, hahead]
      rfl
    have hstart : setup.script.startsVariable p.pos = true :=
      startsVariable_of_index hdigits (hahead.trans (List.append_assoc _ _ _)) nofun
    have hlength : p.pos + (Byte.dollar :: digits).length = p.pos + 1 + digits.length := by
      rw [List.length_cons]
      omega
    rw [Script.element_of_str hb hstart, hlength]
    exact Action.bind_of_ok (interpolateStr_of_written hdigits hrendering hahead hgap
      (boundary_of_rest _ hrest hname hbracket)) _

end Setup

/-! ## A variable in a line -/

/-- Plain text without the blanks that it begins with. -/
theorem Plain.dropWhile {encoding : Encoding} {style : TextStyle}
    (h : Plain encoding style narrow text) :
    Plain encoding style narrow (text.dropWhile Byte.isBlank) := by
  induction h with
  | nil => exact .nil
  | @cons b more rest hwhole hshown hmarker hrest ih =>
    by_cases hblank : Byte.isBlank b = true
    · -- A blank has one byte only, so that the next byte begins a character, too.
      rw [encoding.width_ascii narrow (Byte.inline_of_isBlank hblank).1, List.length_cons] at hwhole
      obtain rfl : more = [] := List.eq_nil_of_length_eq_zero (by omega)
      rw [List.cons_append, List.dropWhile_cons_of_pos hblank]
      exact ih
    · rw [List.cons_append, List.dropWhile_cons_of_neg hblank]
      exact .cons hwhole hshown hmarker hrest

/-- Behind all blanks that a text begins with there is no further one. -/
theorem notBlank_dropWhile (text : Bytes) : NotBlank (text.dropWhile Byte.isBlank) := by
  intro b hb
  have hhead := List.head?_dropWhile_not Byte.isBlank text
  rwa [Option.mem_def.mp hb] at hhead

/-- A text begins with no blank if none is dropped from its front. -/
theorem dropWhile_eq_self_iff : text.dropWhile Byte.isBlank = text ↔ NotBlank text := by
  refine ⟨fun h => h ▸ notBlank_dropWhile text, fun h => ?_⟩
  cases text with
  | nil => rfl
  | cons b text => exact List.dropWhile_cons_of_neg (by simpa [NotBlank] using h)

/-- A reference has a sigil. -/
theorem Reference.Written.ne_nil {reference : Reference} {aliases : Aliases}
    (h : reference.Written aliases text) : text ≠ [] := by
  cases reference with
  | int target =>
    obtain ⟨b, more, rfl, -⟩ := Target.opens h
    exact List.cons_ne_nil _ _
  | str number =>
    obtain ⟨digits, rfl, -⟩ := h
    exact List.cons_ne_nil _ _

/-- What of the text behind a reference is shown. -/
def Reference.shownBehind (reference : Reference) (back : Bytes) : Bytes :=
  if reference.endsInElement then back.dropWhile Byte.isBlank else back

/-- A line of plain text with one reference in it, which nothing behind it goes on with. -/
structure LineAround (setup : Setup) (store : Store) (start : Nat) (narrow : Bool)
    (reference : Reference) (front text back rendering : Bytes) : Prop where
  /-- The line stands at the address. -/
  line : ∃ tail, setup.script.ahead start = front ++ text ++ back ++ tail ∧
    ∀ b ∈ tail.head?, b = Byte.newline
  /-- The text in front of the reference. -/
  plainFront : Plain setup.script.encoding setup.style narrow front
  /-- The reference. -/
  written : reference.Written setup.aliases text
  /-- It is taken for a variable. -/
  isVariable : reference.isVariable = true
  /-- What is shown for it. -/
  value : reference.rendering? setup store narrow = some rendering
  /-- The text behind the reference. -/
  plainBack : Plain setup.script.encoding setup.style narrow back
  /-- It does not go on with a name or a number. -/
  notName : ∀ b ∈ back.head?, Byte.isNameByte b = false
  /-- It does not go on with an index. -/
  notBracket : reference.endsInElement = true →
    ∀ b ∈ (back.dropWhile Byte.isBlank).head?, b ≠ Byte.leftBracket

variable {store : Store} {start : Nat} {reference : Reference} {front back rendering : Bytes}

/-- What is shown of the text behind a reference is its back; the blanks in front of that are those
that the reader of the reference passes over. -/
theorem Reference.exists_passed (reference : Reference) (back : Bytes) :
    ∃ passed, back = passed ++ reference.shownBehind back ∧
      passed.length =
        if reference.endsInElement then (back.takeWhile Byte.isBlank).length else 0 := by
  unfold Reference.shownBehind
  split
  · exact ⟨_, List.takeWhile_append_dropWhile.symm, rfl⟩
  · exact ⟨[], rfl, rfl⟩

/-- What holds of the newline and of what the text begins with holds of what comes next on the
line. -/
theorem forall_head?_append {P : UInt8 → Prop} {tail : Bytes} (htext : ∀ b ∈ text.head?, P b)
    (htail : ∀ b ∈ tail.head?, b = Byte.newline) (hnewline : P Byte.newline) :
    ∀ b ∈ (text ++ tail).head?, P b := by
  cases text with
  | nil => exact fun b hb => htail b hb ▸ hnewline
  | cons c text => exact htext

namespace LineAround

variable (h : LineAround setup store start narrow reference front text back rendering)
include h

/-- The text behind the reference is shown from where the reader of the reference has come to. -/
theorem ends_behind {tail : Bytes} (htail : ∀ b ∈ tail.head?, b = Byte.newline)
    (hahead : setup.script.ahead p.pos = reference.shownBehind back ++ tail)
    (hunmarked : p.unmarked = false) (hmode : p.narrow = narrow) {bytes : Bytes}
    (hpieces : p.pieces = [.chars bytes]) :
    setup.Ends p .endOfLine { p with
      pos := p.pos + (reference.shownBehind back).length
      pieces := [.chars (bytes ++ reference.shownBehind back)] } := by
  have hplain : Plain setup.script.encoding setup.style p.narrow (reference.shownBehind back) := by
    rw [hmode, Reference.shownBehind]
    split
    · exact h.plainBack.dropWhile
    · exact h.plainBack
  refine .of_plain hplain hahead hunmarked ?_
  rw [hpieces, TextPiece.joined_chars]
  refine Setup.ends_of_atLineEnd fun b hb => ?_
  rw [Script.byte?_eq_head?, Script.ahead_add_length hahead] at hb
  exact htail b hb

/-- The run of such a line ends with the line. -/
theorem ends : setup.Ends { pos := start, narrow, store } .endOfLine {
    pos := start + (front ++ text ++ back).length, narrow, store
    pieces := [.chars (front ++ rendering ++ reference.shownBehind back)] } := by
  obtain ⟨tail, hahead, htail⟩ := h.line
  obtain ⟨passed, hback, hpassed⟩ := reference.exists_passed back
  have hfront : setup.script.ahead start = front ++ (text ++ (back ++ tail)) := by
    simpa only [List.append_assoc] using hahead
  have htext := Script.ahead_add_length hfront
  have hsplit : setup.script.ahead (start + front.length) =
      text ++ back.takeWhile Byte.isBlank ++ (back.dropWhile Byte.isBlank ++ tail) := by
    rw [htext, List.append_assoc, ← List.append_assoc (back.takeWhile _),
      List.takeWhile_append_dropWhile]
  have hshown : setup.script.ahead (start + front.length + text.length + passed.length) =
      reference.shownBehind back ++ tail := by
    refine Script.ahead_add_length ((Script.ahead_add_length htext).trans ?_)
    rw [← List.append_assoc, ← hback]
  refine .of_plain h.plainFront hfront rfl ?_
  refine .of_element (Setup.element_of_reference h.written h.isVariable h.value hsplit ?_ ?_ ?_ ?_) ?_
  · exact fun b hb => List.mem_takeWhile_imp hb
  · exact forall_head?_append (notBlank_dropWhile back) htail rfl
  · rw [← List.append_assoc, List.takeWhile_append_dropWhile]
    exact forall_head?_append h.notName htail rfl
  · exact fun helement => forall_head?_append (h.notBracket helement) htail (by decide)
  · rw [TextPiece.pushChars_joined_nil, ← hpassed]
    have hends := h.ends_behind (p := {
      pos := start + front.length + text.length + passed.length, narrow, store
      pieces := [.chars (front ++ rendering)] }) htail hshown rfl rfl rfl
    have hstop : start + front.length + text.length + passed.length +
        (reference.shownBehind back).length = start + (front ++ text ++ back).length := by
      have hlength := congrArg List.length hback
      simp only [List.length_append] at hlength ⊢
      omega
    rw [hstop] at hends
    exact hends

private theorem start_le_size : start ≤ setup.script.size := by
  obtain ⟨tail, hahead, -⟩ := h.line
  have hlength := congrArg List.length hahead
  have htext := List.length_pos_iff.mpr h.written.ne_nil
  simp only [Script.length_ahead, List.length_append] at hlength
  omega

end LineAround

/-- **Interpolation keeps the surrounding text, except for the blanks behind an array element.** A
line with a reference in it is delivered as one run that shows the text in front, the value, and the
text behind; this is all of the line exactly if no blank follows right behind the indices of an
array element. -/
theorem interpolation_keeps_text_iff
    (h : LineAround setup store start narrow reference front text back rendering) :
    read setup store start narrow =
      (.ok {
        run := {
          pieces := [.chars (front ++ rendering ++ reference.shownBehind back)]
          stop := .endOfLine
          start }
        next := start + (front ++ text ++ back).length
        narrow
        warnings := [] }, store) ∧
      (front ++ rendering ++ reference.shownBehind back = front ++ rendering ++ back ↔
        (reference.endsInElement = true → NotBlank back)) := by
  refine ⟨?_, ?_⟩
  · rw [read, Nat.min_eq_left h.start_le_size, show setup.run.run _ = _ from h.ends.run rfl]
  · rw [List.append_right_inj, Reference.shownBehind]
    cases reference.endsInElement with
    | false => simp
    | true => simpa using dropWhile_eq_self_iff

/-- ASCII text without marks is plain where there are no click markers. -/
theorem plain_of_ascii {encoding : Encoding} {style : TextStyle} (hstyle : style.clickMarkers = [])
    (htext : ∀ b ∈ text, b < 0x80 ∧ Byte.isTextMark b = false) : Plain encoding style narrow text := by
  induction text with
  | nil => exact .nil
  | cons b text ih =>
    obtain ⟨⟨hascii, hmark⟩, hrest⟩ := List.forall_mem_cons.mp htext
    have hwhole : [b].length = encoding.width narrow b := (encoding.width_ascii narrow hascii).symm
    refine .cons hwhole hmark ?_ (ih hrest)
    rw [TextStyle.isClickMarker, hstyle]
    rfl

/-- Text without click markers, with numbers as they are. -/
def plainSetup (text : String) : Setup where
  script := ⟨(Bytes.ofText text).toArray, .utf8⟩
  aliases := {}
  style := { clickMarkers := [], wideDigits := false, numberPad := 0 }

/-- In the line `(%1 points)` the number is shown, and everything else is kept. -/
theorem interpolation_keeps_text_points :
    LineAround (plainSetup "(%1 points)\n") ((Store.blank 2 0).setInt 1 12) 0 false
        (.int (.slot (.constant (.literal 1)))) (Bytes.ofText "(") (Bytes.ofText "%1")
        (Bytes.ofText " points)") (Bytes.ofText "12") ∧
      ∃ delivery, (read (plainSetup "(%1 points)\n") ((Store.blank 2 0).setInt 1 12) 0 false).1 =
        .ok delivery ∧ delivery.run.text = Bytes.ofText "(12 points)" := by
  have hline : LineAround (plainSetup "(%1 points)\n") ((Store.blank 2 0).setInt 1 12) 0 false
      (.int (.slot (.constant (.literal 1)))) (Bytes.ofText "(") (Bytes.ofText "%1")
      (Bytes.ofText " points)") (Bytes.ofText "12") := {
    line := ⟨[Byte.newline], by decide +kernel, by simp⟩
    plainFront := plain_of_ascii rfl (by decide +kernel)
    written := ⟨[0x31], by decide +kernel, .decimal (by decide) rfl rfl⟩
    isVariable := rfl
    value := by decide +kernel
    plainBack := plain_of_ascii rfl (by decide +kernel)
    notName := by decide +kernel
    notBracket := nofun }
  refine ⟨hline, _, congrArg Prod.fst (interpolation_keeps_text_iff hline).1, ?_⟩
  decide +kernel

/-- An array with two elements, of which the first one is 5. -/
def scoreStore : Store :=
  let grids := ({} : Grids).declare 1 [1] >>= fun grids => grids.write 1 [0] 0 5
  { Store.blank 1 0 with grids := grids.toOption.getD {} }

/-- In the line `?1[0] points` the blank is missing behind the number. -/
theorem blank_lost_points :
    LineAround (plainSetup "?1[0] points\n") scoreStore 0 false
        (.int (.element (.constant (.literal 1))
          (.last (.signed false (.single (.single (.constant (.literal 0))))))))
        [] (Bytes.ofText "?1[0]") (Bytes.ofText " points") (Bytes.ofText "5") ∧
      ∃ delivery, (read (plainSetup "?1[0] points\n") scoreStore 0 false).1 = .ok delivery ∧
        delivery.run.text = Bytes.ofText "5points" ∧
        delivery.run.text ≠ [] ++ Bytes.ofText "5" ++ Bytes.ofText " points" := by
  refine ⟨{
    line := ⟨[Byte.newline], by decide +kernel, by simp⟩
    plainFront := .nil
    written := ?_
    isVariable := rfl
    value := by decide +kernel
    plainBack := plain_of_ascii rfl (by decide +kernel)
    notName := by decide +kernel
    notBracket := fun _ => by decide +kernel }, ?_⟩
  · refine ⟨[0x31], [], [0x5b, 0x30, 0x5d], by decide +kernel, rfl, .decimal (by decide) rfl rfl,
      Blank.nil, [], [0x30], [], rfl, Blank.nil, ?_, Blank.nil⟩
    exact ⟨[], [], _, rfl, ⟨rfl, rfl⟩, .decimal (by decide) rfl rfl⟩
  · let delivery : Delivery := {
      run := { pieces := [.chars (Bytes.ofText "5points")], stop := .endOfLine, start := 0 }
      next := 12, narrow := false, warnings := [] }
    exact ⟨delivery, by decide +kernel, by decide +kernel, by decide +kernel⟩

end TextReader

end NovelScript
