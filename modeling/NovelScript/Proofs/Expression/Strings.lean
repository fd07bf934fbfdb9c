import NovelScript.Proofs.Expression.Reading
import NovelScript.Proofs.Script.Locality

/-!
# String expressions

The grammar of string expressions, with the value of an expression and the byte strings that it can
be written as, and the reader of such expressions, which finds the value and stops behind the blanks
after what was written.
-/

namespace NovelScript.Expression

open Operand

/-! ## Grammar -/

/-- A term of a string expression. -/
inductive StringTerm where
  /-- A literal between delimiters. -/
  | literal (text : Bytes)
  /-- The value of a string variable. -/
  | read (number : Index)
  /-- The name of a label, with its asterisk. -/
  | label (name : Bytes)
  /-- A string alias, by its name in lower case. -/
  | named (name : String)

/-- A string expression: terms put one behind the other. -/
structure StringSum where
  /-- The first term. -/
  first : StringTerm
  /-- The other terms. -/
  others : List StringTerm

section Values

variable (store : Store) (aliases : Aliases)

/-- The value of a term. -/
def StringTerm.value? : StringTerm → Option Bytes
  | literal text => some text
  | read number => do
    let n ← number.value? store aliases
    let slot ← (Store.index n).toOption
    return store.str slot
  | label name => some (Byte.asterisk :: name)
  | named name => aliases.string? name

/-- The value of terms that are put behind `front`. -/
def appended? (front : Bytes) : List StringTerm → Option Bytes
  | [] => some front
  | term :: others => do
    let value ← term.value? store aliases
    appended? (front ++ value) others

/-- The value of a string expression. -/
def StringSum.value? (sum : StringSum) : Option Bytes := do
  let value ← sum.first.value? store aliases
  appended? store aliases value sum.others

end Values

/-! ## Written forms -/

/-- A name: a byte that a name may start with, and further bytes of a name. -/
def IsName (text : Bytes) : Prop :=
  ∃ first rest, text = first :: rest ∧ Byte.isNameStart first = true ∧
    ∀ b ∈ rest, Byte.isNameByte b = true

/-- What may stand in a literal: whole characters, none of which begins with a newline or with the
delimiter. -/
inductive Quotable (e : Encoding) (delimiter : UInt8) : Bytes → Prop where
  /-- Nothing. -/
  | nil : Quotable e delimiter []
  /-- A character in front of others. -/
  | cons {first : UInt8} {rest more : Bytes} (whole : e.width false first = rest.length + 1)
      (inline : first ≠ Byte.newline) (inside : first ≠ delimiter)
      (more_quotable : Quotable e delimiter more) : Quotable e delimiter (first :: rest ++ more)

/-- Characters of one byte may stand in a literal. -/
theorem Quotable.of_narrow {e : Encoding} {delimiter : UInt8} {text : Bytes}
    (h : ∀ b ∈ text, e.width false b = 1 ∧ b ≠ Byte.newline ∧ b ≠ delimiter) :
    Quotable e delimiter text := by
  induction text with
  | nil => exact .nil
  | cons b text ih =>
    obtain ⟨hwidth, hnewline, hdelimiter⟩ := h b List.mem_cons_self
    exact .cons (show e.width false b = ([] : Bytes).length + 1 from hwidth) hnewline hdelimiter
      (ih fun c hc => h c (List.mem_cons_of_mem b hc))

namespace StringTerm

/-- Whether the text of a term ends in a name. -/
def endsInName : StringTerm → Bool
  | literal _ => false
  | read number => number.endsInName
  | label _ | named _ => true

/-- Whether the text of a term ends in an array element. -/
def endsInElement : StringTerm → Bool
  | read number => number.endsInElement
  | _ => false

end StringTerm

section Written

variable (e : Encoding) (aliases : Aliases)

/-- The ways to write a term. An alias must be defined. -/
def StringTerm.Written : StringTerm → Bytes → Prop
  | literal body, text =>
    ∃ delimiter, (delimiter = Byte.quote ∨ delimiter = Byte.backquote) ∧
      Quotable e delimiter body ∧ text = delimiter :: body ++ [delimiter]
  | read number, text => ∃ digits, text = Byte.dollar :: digits ∧ number.Written aliases digits
  | label name, text => text = Byte.asterisk :: name ∧ IsName name
  | named name, text => IsName text ∧ text.toName = name ∧ (aliases.string? name).isSome = true

/-- The ways to write the terms after the first, each with a plus sign in front. -/
inductive Appended : List StringTerm → Bytes → Prop where
  /-- No further term. -/
  | nil : Appended [] []
  /-- A term in front of others. -/
  | cons {gap gap' text more : Bytes} {term : StringTerm} {others : List StringTerm}
      (blank : Blank gap) (blank' : Blank gap') (written : term.Written e aliases text)
      (others_written : Appended others more) :
      Appended (term :: others) (gap ++ Byte.plus :: gap' ++ text ++ more)

/-- The ways to write a string expression. -/
def StringSum.Written (sum : StringSum) (text : Bytes) : Prop :=
  ∃ front behind, text = front ++ behind ∧ sum.first.Written e aliases front ∧
    Appended e aliases sum.others behind

end Written

/-- What may follow a string expression and the blanks after it: nothing that goes on with its last
term, and no plus sign. -/
structure StopsString (gap rest : Bytes) : Prop where
  /-- The last term ends. -/
  boundary : Boundary true true gap rest
  /-- No further term comes. -/
  notPlus : ∀ b ∈ rest.head?, b ≠ Byte.plus

/-! ## What a term begins with and what comes after it -/

variable {e : Encoding} {aliases : Aliases} {gap rest text : Bytes}

/-- What ends every text ends this one. -/
theorem Boundary.weaken (h : Boundary true true gap rest) (inName inElement : Bool) :
    Boundary inName inElement gap rest where
  notBlank := h.notBlank
  notBracket _ := h.notBracket rfl
  apart b hb hname := absurd (h.apart b hb hname).1 (by decide)

/-- A name goes no further. -/
theorem Boundary.not_isNameByte {inElement : Bool} (h : Boundary true inElement gap rest) :
    ∀ b ∈ (gap ++ rest).head?, Byte.isNameByte b = false := by
  intro b hb
  by_contra hname
  exact absurd (h.apart b hb (by simpa using hname)).1 (by decide)

/-- A byte that is no part of a name and opens no index ends every text. -/
theorem Boundary.of_head (hgap : Blank gap)
    (h : ∀ b ∈ rest.head?, Byte.isBlank b = false ∧ b ≠ Byte.leftBracket ∧
      Byte.isNameByte b = false) (inName inElement : Bool) :
    Boundary inName inElement gap rest where
  notBlank b hb := (h b hb).1
  notBracket _ b hb := (h b hb).2.1
  apart := Apart.of_blank hgap fun _ b hb hname => by
    rw [(h b hb).2.2] at hname
    exact absurd hname (by decide)

/-- A byte that a name can start with is no blank. -/
theorem isBlank_of_isNameStart {b : UInt8} (h : Byte.isNameStart b = true) :
    Byte.isBlank b = false := by
  by_contra hblank
  have hname := Byte.isNameByte_of_isNameStart h
  rw [Byte.isNameByte_eq_false_of_isBlank (by simpa using hblank)] at hname
  exact absurd hname (by decide)

/-- The bytes that a term can begin with. -/
theorem StringTerm.opens {term : StringTerm} (h : term.Written e aliases text) :
    ∃ b tail, text = b :: tail ∧ (Byte.isNameStart b = true ∨
      b ∈ [Byte.quote, Byte.backquote, Byte.dollar, Byte.asterisk]) := by
  cases term with
  | literal body =>
    obtain ⟨delimiter, hdelimiter, -, rfl⟩ := h
    refine ⟨delimiter, _, rfl, .inr ?_⟩
    rcases hdelimiter with rfl | rfl <;> decide
  | read number =>
    obtain ⟨digits, rfl, -⟩ := h
    exact ⟨_, _, rfl, .inr (by decide)⟩
  | label name =>
    obtain ⟨rfl, -⟩ := h
    exact ⟨_, _, rfl, .inr (by decide)⟩
  | named name =>
    obtain ⟨⟨first, tail, rfl, hfirst, -⟩, -, -⟩ := h
    exact ⟨first, tail, rfl, .inl hfirst⟩

/-- A term does not begin with a blank. -/
theorem StringTerm.notBlank {term : StringTerm} (h : term.Written e aliases text)
    (behind : Bytes) : NotBlank (text ++ behind) := by
  obtain ⟨b, tail, rfl, hb⟩ := StringTerm.opens h
  refine .cons ?_
  rcases hb with hname | hmem
  · exact isBlank_of_isNameStart hname
  · simp only [List.mem_cons, List.not_mem_nil, or_false] at hmem
    rcases hmem with rfl | rfl | rfl | rfl <;> decide

/-- There are at most as many further terms as bytes. -/
theorem Appended.length_le {others : List StringTerm} {behind : Bytes}
    (h : Appended e aliases others behind) : others.length ≤ behind.length := by
  induction h with
  | nil => exact Nat.le_refl _
  | cons _ _ _ _ ih =>
    simp only [List.length_append, List.length_cons]
    omega

/-- What comes behind a term ends it, whether it is a further term or what stops the whole. -/
theorem Appended.boundary {others : List StringTerm} {behind gap' : Bytes}
    (h : Appended e aliases others behind) (hgap' : Blank gap') (hrest : StopsString gap' rest) :
    ∃ gap follow, behind ++ gap' ++ rest = gap ++ follow ∧ Blank gap ∧
      Boundary true true gap follow ∧ others.length ≤ follow.length := by
  cases h with
  | nil => exact ⟨gap', rest, rfl, hgap', hrest.boundary, Nat.zero_le _⟩
  | @cons gap inner text more term others hgap hinner hwritten hothers =>
    refine ⟨gap, Byte.plus :: inner ++ text ++ more ++ gap' ++ rest, by simp, hgap,
      .of_head hgap ?_ true true, ?_⟩
    · intro b hb
      obtain rfl : Byte.plus = b := by simpa using hb
      decide
    · have := hothers.length_le
      simp only [List.length_append, List.length_cons]
      omega

end NovelScript.Expression

/-! ## Scanning names and literals -/

namespace NovelScript.Script

open Expression

variable {s : Script} {pos : Nat} {text rest : Bytes}

/-- A name is found where it was written. -/
theorem name?_of_isName (hahead : s.ahead pos = text ++ rest) (h : IsName text)
    (hrest : ∀ b ∈ rest.head?, Byte.isNameByte b = false) :
    s.name? pos = some (text.toName, pos + text.length) := by
  obtain ⟨first, tail, rfl, hfirst, htail⟩ := h
  have hname : ∀ b ∈ first :: tail, Byte.isNameByte b = true :=
    List.forall_mem_cons.mpr ⟨Byte.isNameByte_of_isNameStart hfirst, htail⟩
  have hstart : s.holdsAt pos Byte.isNameStart = true := by
    rw [holdsAt_eq, hahead]
    simpa using hfirst
  have hstop := advanceWhile_append hahead hname hrest
  rw [name?, hstart, if_pos rfl]
  simp only [hstop, slice_append hahead]

/-- Where no name starts none is found. -/
theorem name?_eq_none (h : ∀ b ∈ (s.ahead pos).head?, Byte.isNameStart b = false) :
    s.name? pos = none := by
  have hstart : s.holdsAt pos Byte.isNameStart = false := by
    rw [holdsAt_eq, ← Bool.not_eq_true, Option.any_eq_true]
    rintro ⟨b, hb, hname⟩
    rw [h b hb] at hname
    exact absurd hname (by decide)
  rw [name?, hstart, if_neg Bool.false_ne_true]

/-- The letters of a keyword stand where it was written. -/
theorem keyword?_of_ahead {word : String} {letters : Bytes} (hahead : s.ahead pos = letters ++ rest)
    (hletters : letters.map Byte.lower = (Bytes.ofText word).map Byte.lower)
    (hrest : ∀ b ∈ rest.head?, Byte.isNameByte b = false) :
    s.keyword? word pos = some (pos + letters.length) := by
  have hlength : (Bytes.ofText word).length = letters.length := by
    simpa using (congrArg List.length hletters).symm
  have hword : s.startsWithWord (Bytes.ofText word) pos = true := by
    rw [startsWithWord_iff, hahead, hlength, List.take_left, hletters]
  have hend : s.holdsAt (pos + letters.length) Byte.isNameByte = false := by
    rw [holdsAt_eq, ahead_add_length hahead, ← Bool.not_eq_true, Option.any_eq_true]
    rintro ⟨b, hb, hname⟩
    rw [hrest b hb] at hname
    exact absurd hname (by decide)
  rw [keyword?]
  simp only [hlength, hword, hend, Bool.not_false, Bool.and_self, if_true]

/-- A keyword that is a name is the name that readers find. -/
theorem name?_of_keyword? {word : String} {after : Nat} (hword : IsName (Bytes.ofText word))
    (h : s.keyword? word pos = some after) :
    s.name? pos = some ((Bytes.ofText word).toName, after) := by
  rw [keyword?] at h
  obtain ⟨hboth, h⟩ := Option.ite_none_right_eq_some.mp h
  obtain ⟨hstarts, hend⟩ := Bool.and_eq_true_iff.mp hboth
  rw [startsWithWord_iff] at hstarts
  generalize hletters : (s.ahead pos).take (Bytes.ofText word).length = letters at hstarts
  have hahead : s.ahead pos = letters ++ (s.ahead pos).drop (Bytes.ofText word).length := by
    rw [← hletters, List.take_append_drop]
  have hlength : letters.length = (Bytes.ofText word).length := by
    simpa using congrArg List.length hstarts
  have hrest : ∀ b ∈ ((s.ahead pos).drop (Bytes.ofText word).length).head?,
      Byte.isNameByte b = false := by
    intro b hb
    rw [← ahead_add] at hb
    by_contra hname
    have hholds : s.holdsAt (pos + (Bytes.ofText word).length) Byte.isNameByte = true := by
      rw [holdsAt_eq, Option.any_eq_true]
      exact ⟨b, hb, by simpa using hname⟩
    rw [hholds] at hend
    cases hend
  have htoName : Bytes.toName letters = (Bytes.ofText word).toName := by
    have hmap := congrArg (List.map fun b : UInt8 => Char.ofNat b.toNat) hstarts
    rw [List.map_map, List.map_map] at hmap
    exact congrArg String.ofList hmap
  have hname : IsName letters := by
    obtain ⟨first, tail, hfirst, hstart, htail⟩ := hword
    rw [hfirst] at hstarts
    obtain ⟨first', tail', rfl, hlower, hlowers⟩ := List.map_eq_cons_iff.mp hstarts
    refine ⟨first', tail', rfl, ?_, fun b hb => ?_⟩
    · rw [← Byte.isNameStart_lower, hlower, Byte.isNameStart_lower, hstart]
    · have hmem : Byte.lower b ∈ tail.map Byte.lower := hlowers ▸ List.mem_map_of_mem hb
      obtain ⟨c, hc, hcb⟩ := List.mem_map.mp hmem
      rw [← Byte.isNameByte_lower, ← hcb, Byte.isNameByte_lower, htail c hc]
  rw [name?_of_isName hahead hname hrest, htoName, hlength]
  simpa using h

/-- The scan for the end of a literal stops at its delimiter. -/
theorem advanceChars_of_quotable {delimiter : UInt8} (h : Quotable s.encoding delimiter text)
    (hahead : s.ahead pos = text ++ delimiter :: rest) :
    s.advanceChars false (fun b => b == Byte.newline || b == delimiter) pos =
      pos + text.length := by
  induction h generalizing pos with
  | nil =>
    have hbyte : s.byte? pos = some delimiter := by
      rw [byte?_eq_head?, hahead]
      rfl
    rw [advanceChars_of_byte? hbyte, if_pos (by simp)]
    rfl
  | @cons first tail more hwhole hinline hinside hmore ih =>
    have hahead' : s.ahead pos = (first :: tail) ++ (more ++ delimiter :: rest) := by
      rw [hahead, List.append_assoc]
    have hbyte : s.byte? pos = some first := by
      rw [byte?_eq_head?, hahead']
      rfl
    have hsize : tail.length + 1 ≤ s.bytes.size - pos := by
      have hlength := length_ahead s pos
      rw [hahead', List.length_append, List.length_cons] at hlength
      unfold size at hlength
      omega
    have hwidth : s.charWidth false pos = (first :: tail).length := by
      have hbytes : s.bytes[pos]? = some first := hbyte
      rw [charWidth, Encoding.charWidth, hbytes, List.length_cons]
      simp only [hwhole]
      exact Nat.min_eq_left hsize
    have hgo : (first == Byte.newline || first == delimiter) = false := by
      simp [hinline, hinside]
    rw [advanceChars_of_byte? hbyte, hgo, if_neg Bool.false_ne_true, hwidth,
      ih (ahead_add_length hahead'), List.length_append, Nat.add_assoc]

end NovelScript.Script

/-! ## Reading -/

namespace NovelScript.Expression

open Operand

variable {scope : Scope} {pos : Nat} {warnings : List Warning} {gap rest text : Bytes}

/-- A literal is read up to and over its delimiter. -/
theorem literal_of_quotable {delimiter : UInt8} (hwide : scope.narrow = false)
    (h : Quotable scope.script.encoding delimiter text)
    (hahead : scope.script.ahead pos = text ++ delimiter :: rest) :
    scope.literal delimiter ⟨pos, warnings⟩ = .ok text ⟨pos + text.length + 1, warnings⟩ := by
  have hstop := Script.advanceChars_of_quotable h hahead
  have hat : scope.script.isAt (pos + text.length) delimiter = true := by
    rw [Script.isAt_cons (Script.ahead_add_length hahead), beq_self_eq_true]
  rw [Scope.literal, Action.bind_of_ok (show position _ = .ok pos _ from rfl), hwide, hstop]
  simp only [hat, if_true, Script.slice_append hahead]
  rfl

/-- The number of a string variable is read within the bound that reading starts with. -/
theorem index_of_written {index : Index} (h : index.Written scope.aliases text) (hgap : Blank gap)
    (hboundary : Boundary index.endsInName index.endsInElement gap rest)
    (hahead : scope.script.ahead pos = text ++ gap ++ rest) :
    Reads (scope.index ⟨pos, warnings⟩) (index.value? scope.store scope.aliases)
      (pos + text.length + if index.endsInElement then gap.length else 0) warnings := by
  have hcalls : 4 * text.length + 1 ≤ scope.callBound pos := by
    have hlength := Script.length_ahead scope.script pos
    rw [hahead] at hlength
    simp only [List.length_append] at hlength
    unfold Scope.callBound
    omega
  rw [Scope.index, Action.bind_of_ok (show position _ = .ok pos _ from rfl)]
  exact (readsWithin scope _).index warnings h hgap hboundary hahead hcalls

/-- A literal is a term. -/
theorem strTerm_of_literal (hwide : scope.narrow = false) {delimiter : UInt8} {body follow : Bytes}
    (hdelimiter : delimiter = Byte.quote ∨ delimiter = Byte.backquote)
    (hbody : Quotable scope.script.encoding delimiter body)
    (hahead : scope.script.ahead pos = delimiter :: (body ++ delimiter :: follow)) :
    scope.strTerm ⟨pos, warnings⟩ = .ok body ⟨pos + 1 + body.length + 1, warnings⟩ := by
  have hblank : Byte.isBlank delimiter = false := by
    rcases hdelimiter with rfl | rfl <;> rfl
  have hquote : (delimiter == Byte.quote || delimiter == Byte.backquote) = true := by
    rcases hdelimiter with rfl | rfl <;> rfl
  rw [Scope.strTerm,
    Action.bind_of_ok (skipBlanks_of_notBlank (notBlank_of_cons hahead hblank)),
    Action.bind_of_ok (show position _ = .ok pos _ from rfl), Script.byte?_eq_head?, hahead]
  simp only [List.head?_cons, hquote, if_true]
  exact literal_of_quotable hwide hbody (Script.ahead_succ hahead)

/-- A string variable is a term, with the blanks after an array element in its number. -/
theorem strTerm_of_variable {number : Index} {digits : Bytes}
    (h : number.Written scope.aliases digits) (hgap : Blank gap)
    (hboundary : Boundary number.endsInName number.endsInElement gap rest)
    (hahead : scope.script.ahead pos = Byte.dollar :: (digits ++ gap ++ rest)) :
    Reads (scope.strTerm ⟨pos, warnings⟩)
      ((StringTerm.read number).value? scope.store scope.aliases)
      (pos + 1 + digits.length + if number.endsInElement then gap.length else 0) warnings := by
  rw [Scope.strTerm,
    Action.bind_of_ok (skipBlanks_of_notBlank (notBlank_of_cons hahead (by decide))),
    Action.bind_of_ok (show position _ = .ok pos _ from rfl), Script.byte?_eq_head?, hahead]
  simp only [List.head?_cons]
  rw [if_neg (by decide), if_pos (show (Byte.dollar == Byte.dollar) = true from rfl),
    Action.bind_of_ok (show moveTo (pos + 1) _ = .ok () ⟨pos + 1, warnings⟩ from rfl),
    StringTerm.value?]
  refine Reads.bind (index_of_written h hgap hboundary (Script.ahead_succ hahead)) ?_
  intro n
  refine Reads.bind (Reads.ofExcept _ _ _) ?_
  intro slot
  exact Reads.pure rfl _ _

/-- A label with its asterisk is a term. -/
theorem strTerm_of_label {name follow : Bytes} (hname : IsName name)
    (hfollow : ∀ b ∈ follow.head?, Byte.isNameByte b = false)
    (hahead : scope.script.ahead pos = Byte.asterisk :: (name ++ follow)) :
    scope.strTerm ⟨pos, warnings⟩ =
      .ok (Byte.asterisk :: name) ⟨pos + 1 + name.length, warnings⟩ := by
  have hfound := Script.name?_of_isName (Script.ahead_succ hahead) hname hfollow
  have hslice : scope.script.slice pos (pos + 1 + name.length) = Byte.asterisk :: name := by
    have := Script.slice_append (show scope.script.ahead pos =
      (Byte.asterisk :: name) ++ follow from hahead)
    rwa [List.length_cons, Nat.add_comm name.length, ← Nat.add_assoc] at this
  rw [Scope.strTerm,
    Action.bind_of_ok (skipBlanks_of_notBlank (notBlank_of_cons hahead (by decide))),
    Action.bind_of_ok (show position _ = .ok pos _ from rfl), Script.byte?_eq_head?, hahead]
  simp only [List.head?_cons, hfound, Option.map_some, Option.getD_some]
  rw [if_neg (by decide), if_neg (by decide),
    if_pos (show (Byte.asterisk == Byte.asterisk) = true from rfl), hslice]
  rfl

/-- A string alias is a term. -/
theorem strTerm_of_alias {name follow value : Bytes} (hname : IsName name)
    (hvalue : scope.aliases.string? name.toName = some value)
    (hfollow : ∀ b ∈ follow.head?, Byte.isNameByte b = false)
    (hahead : scope.script.ahead pos = name ++ follow) :
    scope.strTerm ⟨pos, warnings⟩ = .ok value ⟨pos + name.length, warnings⟩ := by
  have hfound := Script.name?_of_isName hahead hname hfollow
  obtain ⟨first, tail, rfl, hfirst, -⟩ := hname
  have hplain : first ≠ Byte.quote ∧ first ≠ Byte.backquote ∧ first ≠ Byte.dollar ∧
      first ≠ Byte.asterisk := by
    refine ⟨?_, ?_, ?_, ?_⟩ <;>
    · rintro rfl
      exact absurd hfirst (by decide)
  have hblank := isBlank_of_isNameStart hfirst
  rw [Scope.strTerm,
    Action.bind_of_ok (skipBlanks_of_notBlank (notBlank_of_cons hahead hblank)),
    Action.bind_of_ok (show position _ = .ok pos _ from rfl), Script.byte?_eq_head?, hahead]
  simp only [List.cons_append, List.head?_cons, beq_eq_false_iff_ne.mpr hplain.1,
    beq_eq_false_iff_ne.mpr hplain.2.1, beq_eq_false_iff_ne.mpr hplain.2.2.1,
    beq_eq_false_iff_ne.mpr hplain.2.2.2, Bool.or_self, Bool.false_eq_true, if_false, hfound, hvalue]
  rfl

/-- From two places with blanks between them the reader comes to the same byte behind blanks. -/
theorem skipBlanks_of_eq {p q : Nat} (h : scope.script.skipBlanks p = scope.script.skipBlanks q) :
    scope.skipBlanks ⟨p, warnings⟩ = .ok () ⟨scope.script.skipBlanks q, warnings⟩ := by
  rw [← h]
  rfl

/-- Reading of a term begins by passing over blanks. -/
theorem strTerm_congr {p q : Nat} (h : scope.script.skipBlanks p = scope.script.skipBlanks q) :
    scope.strTerm ⟨p, warnings⟩ = scope.strTerm ⟨q, warnings⟩ := by
  rw [Scope.strTerm, Action.bind_of_ok (skipBlanks_of_eq h),
    Action.bind_of_ok (skipBlanks_of_eq rfl)]

/-- A term is read with the blanks in front of it. The blanks after an array element are passed
over, too. -/
theorem strTerm_of_written (hwide : scope.narrow = false) {term : StringTerm} {before : Bytes}
    (h : term.Written scope.script.encoding scope.aliases text) (hbefore : Blank before)
    (hgap : Blank gap) (hboundary : Boundary term.endsInName term.endsInElement gap rest)
    (hahead : scope.script.ahead pos = before ++ (text ++ gap ++ rest)) :
    Reads (scope.strTerm ⟨pos, warnings⟩) (term.value? scope.store scope.aliases)
      (pos + before.length + text.length + if term.endsInElement then gap.length else 0)
      warnings := by
  have hblank : NotBlank (text ++ gap ++ rest) := by
    rw [List.append_assoc]
    exact StringTerm.notBlank h _
  have hstart := Script.ahead_add_length hahead
  have hskip : scope.script.skipBlanks pos = scope.script.skipBlanks (pos + before.length) := by
    rw [skipBlanks_append hahead hbefore hblank, skipBlanks_eq_self (by rwa [hstart])]
  rw [strTerm_congr hskip]
  generalize pos + before.length = start at hstart ⊢
  cases term with
  | literal body =>
    obtain ⟨delimiter, hdelimiter, hbody, rfl⟩ := h
    rw [strTerm_of_literal hwide hdelimiter hbody (by simpa using hstart)]
    refine Reads.pure ?_ _ _
    simp only [StringTerm.endsInElement, List.length_append, List.length_cons, List.length_nil,
      Bool.false_eq_true, if_false]
    omega
  | read number =>
    obtain ⟨digits, rfl, hdigits⟩ := h
    have hstop : start + (Byte.dollar :: digits).length = start + 1 + digits.length := by
      simp only [List.length_cons]
      omega
    rw [hstop]
    exact strTerm_of_variable hdigits hgap hboundary hstart
  | label name =>
    obtain ⟨rfl, hname⟩ := h
    rw [strTerm_of_label hname (Boundary.not_isNameByte hboundary) (by simpa using hstart)]
    refine Reads.pure ?_ _ _
    simp only [StringTerm.endsInElement, List.length_cons, Bool.false_eq_true, if_false]
    omega
  | named name =>
    obtain ⟨hname, rfl, hsome⟩ := h
    obtain ⟨value, hvalue⟩ := Option.isSome_iff_exists.mp hsome
    rw [strTerm_of_alias hname hvalue (Boundary.not_isNameByte hboundary)
      (hstart.trans (List.append_assoc _ _ _)), StringTerm.value?, hvalue]
    exact Reads.pure rfl _ _

/-- Reading of further terms begins by passing over blanks. -/
theorem strTail_congr {p q : Nat} (h : scope.script.skipBlanks p = scope.script.skipBlanks q)
    (terms : Nat) (front : Bytes) :
    scope.strTail (terms + 1) front ⟨p, warnings⟩ =
      scope.strTail (terms + 1) front ⟨q, warnings⟩ := by
  rw [Scope.strTail, Action.bind_of_ok (skipBlanks_of_eq h),
    Action.bind_of_ok (skipBlanks_of_eq rfl)]

/-- A term is read, and then the terms after it. -/
theorem term_bind_of_written (hwide : scope.narrow = false) {term : StringTerm}
    {others : List StringTerm} {before behind : Bytes} {f : Bytes → Reader Bytes}
    {next : Bytes → Option Bytes} {stop : Nat}
    (h : term.Written scope.script.encoding scope.aliases text)
    (hothers : Appended scope.script.encoding scope.aliases others behind)
    (hbefore : Blank before) (hgap : Blank gap) (hrest : StopsString gap rest)
    (hahead : scope.script.ahead pos = before ++ (text ++ (behind ++ gap ++ rest)))
    (hf : ∀ value p, others.length ≤ scope.script.size - p →
      scope.script.skipBlanks p =
        scope.script.skipBlanks (pos + before.length + text.length) →
      Reads (f value ⟨p, warnings⟩) (next value) stop warnings) :
    Reads ((scope.strTerm >>= f) ⟨pos, warnings⟩)
      ((term.value? scope.store scope.aliases).bind next) stop warnings := by
  obtain ⟨between, follow, hsplit, hbetween, hboundary, hlength⟩ := hothers.boundary hgap hrest
  rw [hsplit, ← List.append_assoc text] at hahead
  refine Reads.bind (strTerm_of_written hwide h hbefore hbetween
    (hboundary.weaken term.endsInName term.endsInElement) hahead) ?_
  intro value
  have hafter : scope.script.ahead (pos + before.length + text.length) = between ++ follow :=
    Script.ahead_add_length ((Script.ahead_add_length hahead).trans (List.append_assoc _ _ _))
  have hskip := skipBlanks_append hafter hbetween hboundary.notBlank
  have hfollow := Script.ahead_add_length hafter
  have hsize := Script.length_ahead scope.script
    (pos + before.length + text.length + between.length)
  rw [hfollow] at hsize
  refine hf value _ ?_ ?_
  · split <;> omega
  · split
    · rw [hskip]
      exact skipBlanks_eq_self (by rw [hfollow]; exact hboundary.notBlank)
    · rfl

/-- The further terms of a string expression are read up to what stops it. -/
theorem strTail_of_written (hwide : scope.narrow = false) {others : List StringTerm}
    {behind : Bytes} (h : Appended scope.script.encoding scope.aliases others behind)
    (hgap : Blank gap) (hrest : StopsString gap rest) {terms : Nat} (front : Bytes)
    (hahead : scope.script.ahead pos = behind ++ gap ++ rest) (hterms : others.length ≤ terms) :
    Reads (scope.strTail (terms + 1) front ⟨pos, warnings⟩)
      (appended? scope.store scope.aliases front others)
      (pos + behind.length + gap.length) warnings := by
  induction h generalizing pos front terms with
  | nil =>
    rw [List.nil_append] at hahead
    have hplus : (scope.script.ahead (pos + gap.length)).head? ≠ some Byte.plus := by
      rw [Script.ahead_add_length hahead]
      exact fun hhead => hrest.notPlus _ hhead rfl
    rw [Scope.strTail,
      Action.bind_of_ok (skipBlanks_of_ahead hahead hgap hrest.boundary.notBlank),
      Action.bind_of_ok (eat_of_not_ahead hplus)]
    exact Reads.pure (by simp) _ _
  | @cons before inner text more term others hbefore hinner hwritten hothers ih =>
    have hahead' : scope.script.ahead pos =
        before ++ (Byte.plus :: (inner ++ (text ++ (more ++ gap ++ rest)))) := by
      simpa using hahead
    have hopen := Script.ahead_add_length hahead'
    have hterm := Script.ahead_succ hopen
    have hblank : NotBlank (Byte.plus :: (inner ++ (text ++ (more ++ gap ++ rest)))) :=
      .cons (by decide)
    have hblank' : NotBlank (text ++ (more ++ gap ++ rest)) := StringTerm.notBlank hwritten _
    obtain ⟨terms, rfl⟩ : ∃ n, terms = n + 1 := by
      cases terms with
      | zero => cases hterms
      | succ n => exact ⟨n, rfl⟩
    rw [Scope.strTail, Action.bind_of_ok (skipBlanks_of_ahead hahead' hbefore hblank),
      Action.bind_of_ok (eat_of_ahead hopen), if_pos rfl,
      Action.bind_of_ok (skipBlanks_of_ahead hterm hinner hblank'), appended?]
    refine term_bind_of_written hwide hwritten hothers Blank.nil hgap hrest
      (Script.ahead_add_length hterm) ?_
    intro value p _ hskip
    rw [strTail_congr hskip]
    have hmore := Script.ahead_add_length (Script.ahead_add_length hterm)
    have hreads := ih (front ++ value) hmore (Nat.le_of_succ_le_succ hterms)
    have hstop : pos + (before ++ Byte.plus :: inner ++ text ++ more).length + gap.length =
        pos + before.length + 1 + inner.length + text.length + more.length + gap.length := by
      simp only [List.length_append, List.length_cons]
      omega
    rwa [hstop]

/-- **A string expression is read** up to what stops it, with the blanks around it, and gives its
value. -/
theorem str_of_written (hwide : scope.narrow = false) {sum : StringSum} {before : Bytes}
    (h : sum.Written scope.script.encoding scope.aliases text) (hbefore : Blank before)
    (hgap : Blank gap) (hrest : StopsString gap rest)
    (hahead : scope.script.ahead pos = before ++ text ++ gap ++ rest) :
    Reads (scope.str ⟨pos, warnings⟩) (sum.value? scope.store scope.aliases)
      (pos + before.length + text.length + gap.length) warnings := by
  obtain ⟨front, behind, rfl, hfront, hbehind⟩ := h
  have hahead' : scope.script.ahead pos = before ++ (front ++ (behind ++ gap ++ rest)) := by
    simpa only [List.append_assoc] using hahead
  have hstop : pos + before.length + (front ++ behind).length + gap.length =
      pos + before.length + front.length + behind.length + gap.length := by
    simp only [List.length_append]
    omega
  rw [Scope.str, hstop, StringSum.value?]
  refine term_bind_of_written hwide hfront hbehind hbefore hgap hrest hahead' ?_
  intro value p hterms hskip
  rw [Action.bind_of_ok (show position _ = .ok p _ from rfl), strTail_congr hskip]
  exact strTail_of_written hwide hbehind hgap hrest value
    (Script.ahead_add_length (Script.ahead_add_length hahead')) hterms

end NovelScript.Expression
