import NovelScript.Machine.Flow
import NovelScript.Proofs.Expression.Strings

/-!
# Conditions as they are written

The grammar of conditions: comparisons of integers and of strings, bare integers and looks into the
logs, joined by ampersands. A term has a truth value if all its operands have values.

No sign stands between a condition and the statement that it guards, so the grammar also says what
can come after a term: an ampersand, or a statement that begins with a word behind a blank.
-/

namespace NovelScript

/-! ## Comparisons -/

namespace Comparison

/-- Whether two things are in the order that the operator says. -/
def relates {α : Type} [LT α] [DecidableLT α] [DecidableEq α] (comparison : Comparison)
    (lhs rhs : α) : Bool :=
  match comparison with
  | ge => !(lhs < rhs)
  | le => !(rhs < lhs)
  | eq => lhs = rhs
  | ne => lhs ≠ rhs
  | lt => lhs < rhs
  | gt => rhs < lhs

/-- Integers are compared by their values. -/
theorem holds_compareOfLessAndEq (comparison : Comparison) (lhs rhs : Int32) :
    comparison.holds (compareOfLessAndEq lhs rhs) = comparison.relates lhs.toInt rhs.toInt := by
  have hlt : lhs < rhs ↔ lhs.toInt < rhs.toInt := Int32.lt_iff_toInt_lt
  have heq : lhs = rhs ↔ lhs.toInt = rhs.toInt := Int32.toInt_inj.symm
  rw [compareOfLessAndEq]
  simp only [hlt, heq]
  rcases lt_trichotomy lhs.toInt rhs.toInt with h | h | h
  · rw [if_pos h]
    cases comparison <;> simp [holds, relates, h, h.ne, h.not_gt]
  · rw [if_neg h.not_lt, if_pos h]
    cases comparison <;> simp [holds, relates, h]
  · rw [if_neg h.not_gt, if_neg h.ne']
    cases comparison <;> simp [holds, relates, h, h.ne', h.not_gt]

/-- Byte strings are compared in lexicographic order. -/
theorem holds_order (comparison : Comparison) (lhs rhs : Bytes) :
    comparison.holds (Bytes.order lhs rhs) = comparison.relates lhs rhs := by
  fun_induction Bytes.order lhs rhs with
  | case1 => cases comparison <;> rfl
  | case2 => cases comparison <;> rfl
  | case3 => cases comparison <;> rfl
  | case4 a as b bs hlt =>
    have hne : a ≠ b := UInt8.ne_of_lt hlt
    have hge : ¬ b < a := UInt8.lt_asymm hlt
    cases comparison <;> simp [holds, relates, List.cons_lt_cons_iff, hlt, hge, hne, hne.symm]
  | case5 a as b bs hle hlt =>
    have hne : b ≠ a := UInt8.ne_of_lt hlt
    cases comparison <;> simp [holds, relates, List.cons_lt_cons_iff, hlt, hle, hne, hne.symm]
  | case6 a as b bs hle hge ih =>
    obtain rfl : a = b := UInt8.le_antisymm (UInt8.not_lt.mp hge) (UInt8.not_lt.mp hle)
    rw [ih]
    cases comparison <;> simp [relates]

/-- The operators of two bytes come first, so that the one that was written is found, unless
something comes behind it that prolongs it. -/
theorem find?_tokens {comparison : Comparison} {token more : Bytes}
    (h : (token, comparison) ∈ tokens) (hmore : ∀ b ∈ more.head?, b ≠ 0x3d ∧ b ≠ 0x3e) :
    tokens.find? (fun entry => entry.1.isPrefixOf (token ++ more)) = some (token, comparison) := by
  simp only [tokens, List.mem_cons, List.not_mem_nil, or_false, Prod.mk.injEq] at h
  cases more with
  | nil => rcases h with h | h | h | h | h | h | h | h <;> obtain ⟨rfl, rfl⟩ := h <;> rfl
  | cons b more =>
    have hequals : ((0x3d : UInt8) == b) = false := beq_eq_false_iff_ne.mpr (hmore b rfl).1.symm
    have hgreater : ((0x3e : UInt8) == b) = false := beq_eq_false_iff_ne.mpr (hmore b rfl).2.symm
    rcases h with h | h | h | h | h | h | h | h <;> obtain ⟨rfl, rfl⟩ := h <;>
      simp [tokens, List.find?, List.isPrefixOf, hequals, hgreater]

/-- No operator begins with another byte. -/
theorem find?_tokens_eq_none {b : UInt8} {rest : Bytes} (h : b ∉ [0x3e, 0x3c, 0x3d, 0x21]) :
    tokens.find? (fun entry => entry.1.isPrefixOf (b :: rest)) = none := by
  simp only [List.mem_cons, List.not_mem_nil, or_false, not_or] at h
  obtain ⟨hgreater, hless, hequals, hexclamation⟩ := h
  simp [tokens, List.isPrefixOf, Ne.symm hgreater, Ne.symm hless, Ne.symm hequals,
    Ne.symm hexclamation]

end Comparison

namespace Expression

open Operand

/-! ## Grammar -/

/-- The operand that names a label. -/
inductive LabelOperand where
  /-- An asterisk and the name, by its bytes. -/
  | plain (name : Bytes)
  /-- A string expression. -/
  | computed (sum : StringSum)

/-- A term of a condition. -/
inductive ConditionTerm where
  /-- Whether a file was used. -/
  | fileUsed (name : StringSum)
  /-- Whether a label was passed. -/
  | labelPassed (label : LabelOperand)
  /-- A comparison of strings. -/
  | compareStrings (lhs : StringSum) (comparison : Comparison) (rhs : StringSum)
  /-- A comparison of integers. -/
  | compareNumbers (lhs : Tree) (comparison : Comparison) (rhs : Tree)
  /-- An integer that must not be zero. -/
  | nonzero (tree : Tree)

/-- A condition: terms that must all hold. -/
structure Condition where
  /-- The first term. -/
  first : ConditionTerm
  /-- The other terms. -/
  others : List ConditionTerm

/-- All terms of a condition. -/
def Condition.terms (condition : Condition) : List ConditionTerm :=
  condition.first :: condition.others

/-- The name of the label that an operand means, in the form in which labels are looked up. -/
def LabelOperand.name? (store : Store) (aliases : Aliases) : LabelOperand → Option String
  | plain name => some name.toName
  | computed sum => do
    let bytes ← sum.value? store aliases
    let name := Label.key (Text.trim (Text.Utf8.decode bytes))
    if name.isEmpty then none else some name

/-- Whether a term holds, or `none` if one of its operands has no value. -/
def ConditionTerm.holds? (m : Machine) : ConditionTerm → Option Bool
  | fileUsed name => do
    let bytes ← name.value? m.store m.aliases
    return m.fileLog.contains (m.script.encoding.display bytes m.table)
  | labelPassed label => do
    let name ← label.name? m.store m.aliases
    return m.labelLog.contains name
  | compareStrings lhs comparison rhs => do
    let a ← lhs.value? m.store m.aliases
    let b ← rhs.value? m.store m.aliases
    return comparison.relates a b
  | compareNumbers lhs comparison rhs => do
    let a ← lhs.value? m.store m.aliases
    let b ← rhs.value? m.store m.aliases
    return comparison.relates a.toInt b.toInt
  | nonzero tree => do
    let value ← tree.value? m.store m.aliases
    return value ≠ 0

/-- Whether a term ends with an integer expression. -/
def ConditionTerm.endsInNumber : ConditionTerm → Bool
  | compareNumbers _ _ _ | nonzero _ => true
  | _ => false

/-- The last term of a condition. -/
def Condition.last (condition : Condition) : ConditionTerm :=
  condition.others.getLastD condition.first

/-- Whether all terms of a condition hold. -/
def Condition.holds (m : Machine) (condition : Condition) : Bool :=
  condition.terms.all fun term => term.holds? m == some true

/-! ## Written forms -/

/-- The word that looks into the file log. -/
def fileWord : String := "fchk"

/-- The word that looks into the label log. -/
def labelWord : String := "lchk"

/-- Whether a term of a string expression is an alias, which begins with a byte of a name. -/
def StringTerm.isNamed : StringTerm → Bool
  | named _ => true
  | _ => false

/-- A comparison is taken for one of strings if it begins with a literal, a string variable or a
string alias. The words for the logs come first. -/
def StringTerm.Leads : StringTerm → Prop
  | literal _ | read _ => True
  | label _ => False
  | named name => name ≠ fileWord ∧ name ≠ labelWord

/-- The first factor of an integer expression, unless a sign stands in front of it. -/
def Tree.lead? : Tree → Option Factor
  | .signed true _ => none
  | .signed false body => some body.first

/-- A term is taken for one of integers unless it begins with a string alias or with one of the
words for the logs. -/
def Tree.Leads (aliases : Aliases) (tree : Tree) : Prop :=
  ∀ name, tree.lead? = some (.constant (.named name)) →
    aliases.string? name = none ∧ name ≠ fileWord ∧ name ≠ labelWord

section Written

variable (e : Encoding) (aliases : Aliases)

/-- The ways to write the operand that names a label. A string expression that begins with a label
is no such operand, since nothing is read behind the label. -/
def LabelOperand.Written : LabelOperand → Bytes → Prop
  | plain name, text => text = Byte.asterisk :: name ∧ IsName name
  | computed sum, text => (∀ name, sum.first ≠ .label name) ∧ sum.Written e aliases text

/-- Whether an operand that names a label begins with a byte of a name. -/
def LabelOperand.isNamed : LabelOperand → Bool
  | plain _ => false
  | computed sum => sum.first.isNamed

/-- The ways to write a comparison operator, with blanks around it. -/
def Compares (comparison : Comparison) (text : Bytes) : Prop :=
  ∃ gap token gap', text = gap ++ token ++ gap' ∧ Blank gap ∧
    (token, comparison) ∈ Comparison.tokens ∧ Blank gap'

/-- The ways to write a word and the blanks after it, of which there is at least one in front of a
byte of a name. -/
def Asks (word : String) (isNamed : Bool) (text : Bytes) : Prop :=
  ∃ letters gap, text = letters ++ gap ∧ letters.map Byte.lower = Bytes.ofText word ∧ Blank gap ∧
    (isNamed = true → gap ≠ [])

/-- The ways to write a term of a condition. -/
def ConditionTerm.Written : ConditionTerm → Bytes → Prop
  | fileUsed name, text =>
    ∃ front body, text = front ++ body ∧ Asks fileWord name.first.isNamed front ∧
      name.Written e aliases body
  | labelPassed label, text =>
    ∃ front body, text = front ++ body ∧ Asks labelWord label.isNamed front ∧
      label.Written e aliases body
  | compareStrings lhs comparison rhs, text =>
    ∃ left joint right, text = left ++ joint ++ right ∧ lhs.first.Leads ∧
      lhs.Written e aliases left ∧ Compares comparison joint ∧ rhs.Written e aliases right
  | compareNumbers lhs comparison rhs, text =>
    ∃ left joint right, text = left ++ joint ++ right ∧ lhs.Leads aliases ∧
      lhs.Written aliases left ∧ Compares comparison joint ∧ rhs.Written aliases right
  | nonzero tree, text => tree.Leads aliases ∧ tree.Written aliases text

/-- The ways to write the terms after the first, each behind one or two ampersands. -/
inductive Joined : List ConditionTerm → Bytes → Prop where
  /-- No further term. -/
  | nil : Joined [] []
  /-- A term in front of others. -/
  | cons {gap joint gap' text more : Bytes} {term : ConditionTerm} {others : List ConditionTerm}
      (blank : Blank gap) (ampersands : joint = [0x26, 0x26] ∨ joint = [0x26]) (blank' : Blank gap')
      (written : term.Written e aliases text) (others_written : Joined others more) :
      Joined (term :: others) (gap ++ (joint ++ (gap' ++ (text ++ more))))

/-- The ways to write a condition. -/
def Condition.Written (condition : Condition) (text : Bytes) : Prop :=
  ∃ front behind, text = front ++ behind ∧ condition.first.Written e aliases front ∧
    Joined e aliases condition.others behind

end Written

/-! ## What comes after a term -/

/-- What comes after a term, with the blanks in front of it: an ampersand, or behind a blank a word
that is not taken for the remainder operator; `number` says whether the term ends with an integer
expression. -/
inductive AfterTerm (number : Bool) : Bytes → Prop where
  /-- A further term. -/
  | joint {gap rest : Bytes} (blank : Blank gap) : AfterTerm number (gap ++ 0x26 :: rest)
  /-- The statement that is guarded. -/
  | statement {gap rest : Bytes} {first : UInt8} (blank : Blank gap) (apart : gap ≠ [])
      (word : Byte.isNameStart first = true)
      (notRemainder : number = true → ¬ RemainderNext (first :: rest)) :
      AfterTerm number (gap ++ first :: rest)

/-- A byte that ends an operand of a condition, with the blanks in front of it: it belongs to a
comparison, joins two terms, or begins a word behind a blank. -/
def EndsOperand (gap : Bytes) (b : UInt8) : Prop :=
  b ∈ [0x3e, 0x3c, 0x3d, 0x21, 0x26] ∨ Byte.isNameStart b = true ∧ gap ≠ []

namespace EndsOperand

variable {gap rest : Bytes} {b : UInt8}

/-- Such a byte is no blank, no comma, no bracket and no sign. -/
theorem plain (h : EndsOperand gap b) : Byte.isBlank b = false ∧ b ≠ Byte.comma ∧
    b ≠ Byte.leftBracket ∧ b ≠ Byte.minus ∧ b ≠ Byte.plus ∧ b ≠ Byte.asterisk ∧
    b ≠ Byte.slash := by
  rcases h with hmem | ⟨hname, -⟩
  · simp only [List.mem_cons, List.not_mem_nil, or_false] at hmem
    rcases hmem with rfl | rfl | rfl | rfl | rfl <;> decide
  · refine ⟨isBlank_of_isNameStart hname, ?_, ?_, ?_, ?_, ?_, ?_⟩ <;>
    · rintro rfl
      exact absurd hname (by decide)

/-- Right behind an operand it is no byte of a name. -/
theorem apart (h : EndsOperand gap b) (hgap : gap = []) : Byte.isNameByte b = false := by
  rcases h with hmem | ⟨-, hne⟩
  · simp only [List.mem_cons, List.not_mem_nil, or_false] at hmem
    rcases hmem with rfl | rfl | rfl | rfl | rfl <;> decide
  · exact absurd hgap hne

/-- Behind an operand there is a byte that is no blank. -/
theorem notBlank (h : EndsOperand gap b) : NotBlank (b :: rest) := by
  exact .cons h.plain.1

/-- An integer expression stops in front of it. -/
theorem stops (h : EndsOperand gap b) (hremainder : ¬ RemainderNext (b :: rest)) :
    Stops gap (b :: rest) where
  notBlank := h.notBlank
  notSign c hc := by
    obtain rfl : b = c := by simpa using hc
    exact h.plain.2.2
  notRemainder := hremainder
  apart hgap c hc := by
    obtain rfl : b = c := by simpa using hc
    exact h.apart hgap

/-- A string expression stops in front of it. -/
theorem stopsString (h : EndsOperand gap b) (hgap : Blank gap) : StopsString gap (b :: rest) where
  boundary := {
    notBlank := h.notBlank
    notBracket := fun _ c hc => by
      obtain rfl : b = c := by simpa using hc
      exact h.plain.2.2.1
    apart := Apart.of_blank hgap fun hnil c hc hname => by
      obtain rfl : b = c := by simpa using hc
      rw [h.apart hnil] at hname
      exact absurd hname (by decide) }
  notPlus c hc := by
    obtain rfl : b = c := by simpa using hc
    exact h.plain.2.2.2.2.1

end EndsOperand

/-- What comes after a term ends its last operand, and is no comparison. -/
theorem AfterTerm.endsOperand {number : Bool} {after : Bytes} (h : AfterTerm number after) :
    ∃ gap b rest, after = gap ++ b :: rest ∧ Blank gap ∧ EndsOperand gap b ∧
      b ∉ [0x3e, 0x3c, 0x3d, 0x21] ∧ (number = true → ¬ RemainderNext (b :: rest)) := by
  cases h with
  | @joint gap rest hgap =>
    refine ⟨gap, 0x26, rest, rfl, hgap, .inl (by decide), by decide, fun _ => ?_⟩
    exact not_remainderNext fun b hb => by
      obtain rfl : 0x26 = b := by simpa using hb
      decide
  | @statement gap rest first hgap happart hword hremainder =>
    refine ⟨gap, first, rest, rfl, hgap, .inr ⟨hword, happart⟩, ?_, hremainder⟩
    simp only [List.mem_cons, List.not_mem_nil, or_false]
    rintro (rfl | rfl | rfl | rfl) <;> exact absurd hword (by decide)

/-- After each term comes a joint or the guarded statement. -/
theorem Joined.afterTerm {e : Encoding} {aliases : Aliases} {number : Bool}
    {others : List ConditionTerm} {behind rest : Bytes} (h : Joined e aliases others behind)
    (hrest : others = [] → AfterTerm number rest) : AfterTerm number (behind ++ rest) := by
  cases h with
  | nil => exact hrest rfl
  | @cons gap joint gap' text more term others hgap hjoint _ _ _ =>
    rw [List.append_assoc, List.append_assoc]
    rcases hjoint with rfl | rfl <;> exact .joint hgap

/-- The sign that joins two terms is no blank. -/
theorem notBlank_of_joint {joint : Bytes} (h : joint = [0x26, 0x26] ∨ joint = [0x26])
    (behind : Bytes) : NotBlank (joint ++ behind) := by
  rcases h with rfl | rfl <;> exact .cons (by decide)

/-- Each further term takes up room. -/
theorem Joined.length_le {e : Encoding} {aliases : Aliases} {others : List ConditionTerm}
    {behind : Bytes} (h : Joined e aliases others behind) : others.length ≤ behind.length := by
  induction h with
  | nil => exact le_rfl
  | @cons gap joint gap' text more term others _ hjoint _ _ _ ih =>
    have hpos : 1 ≤ joint.length := by
      rcases hjoint with rfl | rfl <;> decide
    simp only [List.length_cons, List.length_append]
    omega

/-- It does so behind the blanks that come first. -/
theorem Joined.length_le_skipBlanks {e : Encoding} {aliases : Aliases}
    {others : List ConditionTerm} {behind rest : Bytes} {s : Script} {pos : Nat}
    (h : Joined e aliases others behind) (hahead : s.ahead pos = behind ++ rest) :
    others.length ≤ s.size - s.skipBlanks pos := by
  cases h with
  | nil => exact Nat.zero_le _
  | @cons gap joint gap' text more term others hgap hjoint _ _ hmore =>
    have hahead' : s.ahead pos = gap ++ (joint ++ (gap' ++ (text ++ (more ++ rest)))) := by
      simpa only [List.append_assoc] using hahead
    have hpos : 1 ≤ joint.length := by
      rcases hjoint with rfl | rfl <;> decide
    have hlength := Script.length_ahead s (pos + gap.length)
    rw [Script.ahead_add_length hahead'] at hlength
    rw [skipBlanks_append hahead' hgap (notBlank_of_joint hjoint _), ← hlength]
    have := hmore.length_le
    simp only [List.length_append, List.length_cons]
    omega

/-- The name of a built-in command begins with a letter. -/
theorem isNameStart_of_builtin {word : Bytes} {command : Command}
    (h : Command.ofName? word.toName = some command) :
    ∃ b tail, word = b :: tail ∧ Byte.isNameStart b = true := by
  have hletter : ∀ entry ∈ Command.names, entry.1.toList.head?.any Char.isLower = true := by decide
  have hall : ∀ n : Fin 256, (Char.ofNat (Byte.lower (UInt8.ofFin n)).toNat).isLower = true →
      Byte.isNameStart (UInt8.ofFin n) = true := by decide +kernel
  obtain ⟨before, after, hnames, -⟩ := List.lookup_eq_some_iff.mp h
  have hfirst := hletter (word.toName, command) (by simp [hnames])
  rw [Bytes.toName, String.toList_ofList] at hfirst
  cases word with
  | nil => exact absurd hfirst (by decide)
  | cons b tail => exact ⟨b, tail, rfl, hall b.toFin hfirst⟩

/-- Among the names of built-in commands only one begins like the remainder operator. -/
theorem eq_mod_of_take {name : String} {command : Command}
    (h : Command.ofName? name = some command) (htake : name.toList.take 3 = ['m', 'o', 'd']) :
    name = "mod" ∧ command = .mod := by
  have hall : ∀ entry ∈ Command.names, entry.1.toList.take 3 = ['m', 'o', 'd'] →
      entry = ("mod", .mod) := by decide
  obtain ⟨before, after, hnames, -⟩ := List.lookup_eq_some_iff.mp h
  exact Prod.mk.inj (hall (name, command) (by simp [hnames]) htake)

/-- A built-in command is not taken for the remainder operator, except for the one of that name, if
something that can start a term comes right behind it. -/
theorem not_remainderNext_of_builtin {word follow : Bytes} {command : Command}
    (hcommand : Command.ofName? word.toName = some command)
    (hfollow : ∀ b ∈ follow.head?, Byte.isNameByte b = false)
    (hmod : command = .mod → ∀ b ∈ follow.head?,
      (Byte.isBlank b || Byte.isSigil b || b == Byte.leftParen) = false) :
    ¬ RemainderNext (word ++ follow) := by
  rintro ⟨hletters, b, hb, hstart⟩
  -- What comes behind the word is none of the three letters.
  have hlength : 3 ≤ word.length := by
    by_contra hshort
    have hletter : ∃ c ∈ follow.head?, Byte.lower c ∈ [0x6d, 0x6f, 0x64] := by
      cases follow with
      | nil =>
        have := congrArg List.length hletters
        simp at this
        omega
      | cons c follow =>
        refine ⟨c, rfl, ?_⟩
        have hmem : Byte.lower c ∈ ((word ++ c :: follow).take 3).map Byte.lower :=
          List.mem_map_of_mem (List.mem_take_iff_getElem.mpr ⟨word.length, by simp; omega, by simp⟩)
        rwa [hletters] at hmem
    obtain ⟨c, hc, hmem⟩ := hletter
    have hname := hfollow c hc
    rw [← Byte.isNameByte_lower] at hname
    simp only [List.mem_cons, List.not_mem_nil, or_false] at hmem
    rcases hmem with h | h | h <;>
    · rw [h] at hname
      exact absurd hname (by decide)
  have htake : (Bytes.toName word).toList.take 3 = ['m', 'o', 'd'] := by
    rw [List.take_append_of_le_length hlength] at hletters
    have hmap := congrArg (List.map fun b : UInt8 => Char.ofNat b.toNat) hletters
    rw [List.map_map] at hmap
    rw [Bytes.toName, String.toList_ofList, ← List.map_take]
    exact hmap
  obtain ⟨hname, rfl⟩ := eq_mod_of_take hcommand htake
  have hthree : word.length = 3 := by
    have := congrArg (fun name => name.toList.length) hname
    simpa [Bytes.toName] using this
  rw [← hthree, List.drop_left] at hb
  have hdigit : Byte.isDigit b = false := by
    have := hfollow b hb
    simp only [Byte.isNameByte, Bool.or_eq_false_iff] at this
    exact this.1.2
  rw [hmod rfl b hb, hdigit] at hstart
  exact absurd hstart (by decide)

/-! ## How a term begins -/

section Leading

variable {scope : Scope} {pos : Nat} {warnings : List Warning} {text gap rest : Bytes}

/-- The name at an address, if there is one, is none of the words for the logs. -/
def AsksNothing (s : Script) (pos : Nat) : Prop :=
  ∀ name after, s.name? pos = some (name, after) → name ≠ fileWord ∧ name ≠ labelWord

private theorem asksNothing_of_not_isNameStart {s : Script}
    (h : ∀ b ∈ (s.ahead pos).head?, Byte.isNameStart b = false) : AsksNothing s pos := by
  intro name after hname
  rw [Script.name?_eq_none h] at hname
  cases hname

private theorem asksNothing_of_name? {s : Script} {name : String} {after : Nat}
    (hfound : s.name? pos = some (name, after)) (h : name ≠ fileWord ∧ name ≠ labelWord) :
    AsksNothing s pos := by
  intro name' after' hname
  obtain ⟨rfl, -⟩ := Prod.mk.inj (Option.some.inj (hfound.symm.trans hname))
  exact h

/-- Only an alias begins with a byte of a name. -/
theorem StringTerm.isNamed_of_isNameByte {e : Encoding} {aliases : Aliases} {term : StringTerm}
    {behind tail : Bytes} {b : UInt8} (h : term.Written e aliases text)
    (hopen : text ++ behind = b :: tail) (hb : Byte.isNameByte b = true) : term.isNamed = true := by
  cases term with
  | named name => rfl
  | literal body =>
    obtain ⟨delimiter, hdelimiter, -, rfl⟩ := h
    obtain rfl : delimiter = b := (List.cons.inj hopen).1
    rcases hdelimiter with rfl | rfl <;> exact absurd hb (by decide)
  | read number =>
    obtain ⟨digits, rfl, -⟩ := h
    obtain rfl : Byte.dollar = b := (List.cons.inj hopen).1
    exact absurd hb (by decide)
  | label name =>
    obtain ⟨rfl, -⟩ := h
    obtain rfl : Byte.asterisk = b := (List.cons.inj hopen).1
    exact absurd hb (by decide)

/-- What an operand that names a label begins with. -/
theorem LabelOperand.opens {e : Encoding} {aliases : Aliases} {label : LabelOperand}
    (h : label.Written e aliases text) : ∃ b tail, text = b :: tail ∧ Byte.isBlank b = false ∧
      (Byte.isNameByte b = true → label.isNamed = true) := by
  cases label with
  | plain name =>
    obtain ⟨rfl, -⟩ := h
    exact ⟨_, _, rfl, by decide, fun hname => absurd hname (by decide)⟩
  | computed sum =>
    obtain ⟨-, front, behind, rfl, hfront, -⟩ := h
    obtain ⟨b, tail, hopen, -⟩ := StringTerm.opens hfront
    refine ⟨b, tail ++ behind, by rw [hopen]; rfl, ?_,
      StringTerm.isNamed_of_isNameByte hfront (show front ++ behind = _ by rw [hopen]; rfl)⟩
    exact StringTerm.notBlank hfront behind b (by rw [hopen]; rfl)

/-- A string expression that may begin a comparison is recognized. -/
theorem StringSum.leads_of_written {sum : StringSum}
    (h : sum.Written scope.script.encoding scope.aliases text) (hleads : sum.first.Leads)
    (hgap : Blank gap) (hrest : StopsString gap rest)
    (hahead : scope.script.ahead pos = text ++ gap ++ rest) :
    scope.startsString pos = true ∧ AsksNothing scope.script pos := by
  obtain ⟨front, behind, rfl, hfront, hbehind⟩ := h
  obtain ⟨between, follow, hsplit, -, hboundary, -⟩ := hbehind.boundary hgap hrest
  have hahead' : scope.script.ahead pos = front ++ (between ++ follow) := by
    rw [hahead, ← hsplit]
    simp only [List.append_assoc]
  unfold Scope.startsString
  rw [Script.byte?_eq_head?]
  cases hterm : sum.first with
  | literal body =>
    rw [hterm] at hfront
    obtain ⟨delimiter, hdelimiter, -, rfl⟩ := hfront
    rw [hahead']
    refine ⟨?_, asksNothing_of_not_isNameStart ?_⟩
    · rcases hdelimiter with rfl | rfl <;> rfl
    · rw [hahead']
      intro b hb
      obtain rfl : delimiter = b := by simpa using hb
      rcases hdelimiter with rfl | rfl <;> rfl
  | read number =>
    rw [hterm] at hfront
    obtain ⟨digits, rfl, -⟩ := hfront
    rw [hahead']
    refine ⟨rfl, asksNothing_of_not_isNameStart ?_⟩
    rw [hahead']
    intro b hb
    obtain rfl : Byte.dollar = b := by simpa using hb
    rfl
  | label name =>
    rw [hterm] at hleads
    exact absurd hleads id
  | named name =>
    rw [hterm] at hfront hleads
    obtain ⟨hname, rfl, hsome⟩ := hfront
    have hfound := Script.name?_of_isName hahead' hname hboundary.not_isNameByte
    refine ⟨?_, asksNothing_of_name? hfound hleads⟩
    obtain ⟨first, tail, rfl, -, -⟩ := hname
    rw [hahead', hfound]
    simp only [List.cons_append, List.head?_cons, hsome, ite_self]

/-- What an integer expression begins with: a minus sign, or its first factor. -/
theorem Tree.opens {tree : Tree} {aliases : Aliases} (h : tree.Written aliases text) :
    ∃ b tail, text = b :: tail ∧ (b = Byte.minus ∨ ∃ isName, Opens isName b) := by
  obtain ⟨negative, body⟩ := tree
  obtain ⟨sign, between, inner, rfl, hsign, hbody⟩ := h
  cases negative with
  | true =>
    obtain ⟨rfl, -⟩ := hsign
    exact ⟨_, _, rfl, .inl rfl⟩
  | false =>
    obtain ⟨rfl, rfl⟩ := hsign
    obtain ⟨head, after, tail, hchain, hhead, -⟩ := Sum.chained hbody Blank.nil
    obtain ⟨first, head', rfl, hopens⟩ := Factor.opens hhead
    rw [List.append_nil] at hchain
    exact ⟨first, _, hchain, .inr ⟨_, hopens⟩⟩

/-- A text begins with an operand: with no blank, and with nothing that prolongs the operator in
front of it. -/
def OpensOperand (text : Bytes) : Prop :=
  ∃ b tail, text = b :: tail ∧ Byte.isBlank b = false ∧ b ≠ 0x3d ∧ b ≠ 0x3e ∧ b ≠ 0x26

private theorem OpensOperand.append (h : OpensOperand text) (behind : Bytes) :
    OpensOperand (text ++ behind) := by
  obtain ⟨b, tail, rfl, hb⟩ := h
  exact ⟨b, tail ++ behind, rfl, hb⟩

private theorem opensOperand_of_isNameStart {b : UInt8} {tail : Bytes}
    (h : Byte.isNameStart b = true) : OpensOperand (b :: tail) := by
  refine ⟨b, tail, rfl, isBlank_of_isNameStart h, ?_, ?_, ?_⟩ <;>
  · rintro rfl
    exact absurd h (by decide)

/-- A written integer expression begins as operands do. -/
theorem opensOperand_of_tree {tree : Tree} {aliases : Aliases} (h : tree.Written aliases text) :
    OpensOperand text := by
  obtain ⟨b, tail, rfl, hb⟩ := Tree.opens h
  rcases hb with rfl | ⟨isName, hopens⟩
  · exact ⟨_, tail, rfl, by decide⟩
  · refine ⟨b, tail, rfl, hopens.plain.1, ?_, ?_, ?_⟩ <;>
    · rintro rfl
      cases isName <;> exact absurd hopens (by simp [Opens]; decide)

/-- So does a written string expression. -/
theorem opensOperand_of_string {sum : StringSum} {e : Encoding} {aliases : Aliases}
    (h : sum.Written e aliases text) : OpensOperand text := by
  obtain ⟨front, behind, rfl, hfront, -⟩ := h
  obtain ⟨b, tail, rfl, hb⟩ := StringTerm.opens hfront
  rcases hb with hname | hmem
  · exact opensOperand_of_isNameStart hname
  · simp only [List.mem_cons, List.not_mem_nil, or_false] at hmem
    refine ⟨b, tail ++ behind, rfl, ?_⟩
    rcases hmem with rfl | rfl | rfl | rfl <;> decide

/-- A word begins like an operand. -/
theorem Asks.opensOperand {word : String} {isNamed : Bool} (hword : IsName (Bytes.ofText word))
    (h : Asks word isNamed text) : OpensOperand text := by
  obtain ⟨letters, gap, rfl, hletters, -⟩ := h
  obtain ⟨first, tail, hfirst, hstart, -⟩ := hword
  rw [hfirst] at hletters
  obtain ⟨first', tail', rfl, rfl, -⟩ := List.map_eq_cons_iff.mp hletters
  exact (opensOperand_of_isNameStart ((Byte.isNameStart_lower first').symm.trans hstart)).append gap

/-- The word for the file log is a name. -/
theorem isName_fileWord : IsName (Bytes.ofText fileWord) :=
  ⟨_, _, rfl, by decide, by decide +kernel⟩

/-- So is the word for the label log. -/
theorem isName_labelWord : IsName (Bytes.ofText labelWord) :=
  ⟨_, _, rfl, by decide, by decide +kernel⟩

/-- So does a term. -/
theorem ConditionTerm.opensOperand {term : ConditionTerm} {e : Encoding} {aliases : Aliases}
    (h : term.Written e aliases text) : OpensOperand text := by
  cases term with
  | fileUsed name =>
    obtain ⟨front, body, rfl, hasks, -⟩ := h
    exact (hasks.opensOperand isName_fileWord).append body
  | labelPassed label =>
    obtain ⟨front, body, rfl, hasks, -⟩ := h
    exact (hasks.opensOperand isName_labelWord).append body
  | compareStrings lhs comparison rhs =>
    obtain ⟨left, joint, right, rfl, -, hleft, -⟩ := h
    exact ((opensOperand_of_string hleft).append joint).append right
  | compareNumbers lhs comparison rhs =>
    obtain ⟨left, joint, right, rfl, -, hleft, -⟩ := h
    exact ((opensOperand_of_tree hleft).append joint).append right
  | nonzero tree => exact opensOperand_of_tree h.2

/-- Where neither a name nor a delimiter nor the sigil of strings comes first, no string begins, and
nothing is asked. -/
theorem leads_of_plain {b : UInt8} {tail : Bytes} (hopen : scope.script.ahead pos = b :: tail)
    (hname : Byte.isNameStart b = false)
    (hplain : b ≠ Byte.quote ∧ b ≠ Byte.dollar ∧ b ≠ Byte.backquote) :
    scope.startsString pos = false ∧ AsksNothing scope.script pos := by
  have hnone : ∀ c ∈ (scope.script.ahead pos).head?, Byte.isNameStart c = false := by
    simpa [hopen] using hname
  refine ⟨?_, asksNothing_of_not_isNameStart hnone⟩
  unfold Scope.startsString
  rw [Script.byte?_eq_head?, Script.name?_eq_none hnone, hopen]
  simp [hplain]

/-- So it is where a name comes first that is no string alias and none of the words for the logs. -/
theorem leads_of_name {text follow : Bytes} (hname : IsName text)
    (hahead : scope.script.ahead pos = text ++ follow)
    (hfollow : ∀ b ∈ follow.head?, Byte.isNameByte b = false)
    (hstring : scope.aliases.string? text.toName = none)
    (hwords : text.toName ≠ fileWord ∧ text.toName ≠ labelWord) :
    scope.startsString pos = false ∧ AsksNothing scope.script pos := by
  have hfound := Script.name?_of_isName hahead hname hfollow
  refine ⟨?_, asksNothing_of_name? hfound hwords⟩
  obtain ⟨first, tail, rfl, hstart, -⟩ := hname
  have hplain : first ≠ Byte.quote ∧ first ≠ Byte.dollar ∧ first ≠ Byte.backquote := by
    refine ⟨?_, ?_, ?_⟩ <;>
    · rintro rfl
      exact absurd hstart (by decide)
  unfold Scope.startsString
  rw [Script.byte?_eq_head?, hfound, hahead]
  simp [hplain, hstring]

/-- What a factor begins with that is no name is none of these. -/
theorem Opens.plain_of_number {b : UInt8} (h : Opens false b) : Byte.isNameStart b = false ∧
    b ≠ Byte.quote ∧ b ≠ Byte.dollar ∧ b ≠ Byte.backquote := by
  rcases h with hdigit | rfl | rfl | rfl
  · refine ⟨?_, ?_, ?_, ?_⟩
    · by_contra hstart
      rw [Byte.isDigit_eq_false_of_isNameStart (by simpa using hstart)] at hdigit
      exact absurd hdigit (by decide)
    all_goals
      rintro rfl
      exact absurd hdigit (by decide)
  all_goals decide

/-- Only an alias is a name. -/
theorem Factor.eq_named_of_isName {factor : Factor} (h : factor.isName = true) :
    ∃ name, factor = .constant (.named name) := by
  match factor with
  | .constant (.named name) => exact ⟨name, rfl⟩
  | .constant (.literal n) => cases h
  | .read target => cases h
  | .group inner => cases h

/-- An integer expression that may begin a term is not taken for anything else. -/
theorem Tree.leads_of_written {tree : Tree} (h : tree.Written scope.aliases text)
    (hleads : tree.Leads scope.aliases) (hgap : Blank gap) (hrest : Stops gap rest)
    (hahead : scope.script.ahead pos = text ++ gap ++ rest) :
    scope.startsString pos = false ∧ AsksNothing scope.script pos := by
  obtain ⟨negative, body⟩ := tree
  obtain ⟨sign, between, inner, rfl, hsign, hbody⟩ := h
  cases negative with
  | true =>
    obtain ⟨rfl, -⟩ := hsign
    exact leads_of_plain hahead (by decide) (by decide)
  | false =>
    obtain ⟨rfl, rfl⟩ := hsign
    obtain ⟨head, after, tail, hchain, hhead, hafter, htail⟩ := Sum.chained hbody hgap
    have hboundary := htail.boundary body.first.endsInElement hafter hrest
    have hahead' : scope.script.ahead pos = head ++ (after ++ (tail ++ rest)) := by
      rw [hahead, List.nil_append, List.nil_append, hchain]
      simp only [List.append_assoc]
    cases hname : body.first.isName with
    | false =>
      obtain ⟨first, head', rfl, hopens⟩ := Factor.opens hhead
      rw [hname] at hopens
      exact leads_of_plain hahead' hopens.plain_of_number.1 hopens.plain_of_number.2
    | true =>
      obtain ⟨name, hfactor⟩ := Factor.eq_named_of_isName hname
      rw [hfactor] at hhead hboundary
      obtain ⟨hstring, hwords⟩ := hleads name (congrArg some hfactor)
      obtain ⟨hisName, rfl, -⟩ := hhead
      exact leads_of_name hisName hahead' hboundary.not_isNameByte hstring hwords

/-- Only a label begins with an asterisk. -/
theorem StringTerm.not_asterisk {e : Encoding} {aliases : Aliases} {term : StringTerm}
    (h : term.Written e aliases text) (hlabel : ∀ name, term ≠ .label name) (behind : Bytes) :
    (text ++ behind).head? ≠ some Byte.asterisk := by
  obtain ⟨b, tail, rfl, hb⟩ : ∃ b tail, text = b :: tail ∧ b ≠ Byte.asterisk := by
    cases term with
    | label name => exact absurd rfl (hlabel name)
    | literal body =>
      obtain ⟨delimiter, hdelimiter, -, rfl⟩ := h
      refine ⟨delimiter, _, rfl, ?_⟩
      rcases hdelimiter with rfl | rfl <;> decide
    | read number =>
      obtain ⟨digits, rfl, -⟩ := h
      exact ⟨_, _, rfl, by decide⟩
    | named name =>
      obtain ⟨⟨first, tail, rfl, hfirst, -⟩, -⟩ := h
      refine ⟨first, tail, rfl, ?_⟩
      rintro rfl
      exact absurd hfirst (by decide)
  simpa using hb

/-- The operand that names a label is read with the blanks around it. -/
theorem label_of_written (hwide : scope.narrow = false) {label : LabelOperand} {before : Bytes}
    (h : label.Written scope.script.encoding scope.aliases text) (hbefore : Blank before)
    (hgap : Blank gap) (hrest : StopsString gap rest)
    (hahead : scope.script.ahead pos = before ++ (text ++ (gap ++ rest))) {name : String}
    (hname : label.name? scope.store scope.aliases = some name) :
    scope.label ⟨pos, warnings⟩ =
      .ok name ⟨pos + (before ++ text ++ gap).length, warnings⟩ := by
  have hstart := Script.ahead_add_length hahead
  have hstop : pos + (before ++ text ++ gap).length =
      pos + before.length + text.length + gap.length := by
    simp only [List.length_append, Nat.add_assoc]
  cases label with
  | plain letters =>
    obtain ⟨rfl, hletters⟩ := h
    cases hname
    have hopen : scope.script.ahead (pos + before.length) =
        Byte.asterisk :: (letters ++ (gap ++ rest)) := hstart
    have hfound := Script.name?_of_isName (Script.ahead_succ hopen) hletters
      hrest.boundary.not_isNameByte
    have hafter := Script.ahead_add_length (Script.ahead_succ hopen)
    have hblank : NotBlank (Byte.asterisk :: letters ++ (gap ++ rest)) := .cons (by decide)
    rw [Scope.label, Action.bind_of_ok (skipBlanks_of_ahead hahead hbefore hblank),
      Action.bind_of_ok (eat_of_ahead hopen), if_pos rfl,
      Action.bind_of_ok (show position _ = .ok (pos + before.length + 1) _ from rfl), hfound]
    simp only
    rw [Action.bind_of_ok (show moveTo _ _ = .ok () ⟨_, warnings⟩ from rfl),
      Action.bind_of_ok (skipBlanks_of_ahead hafter hgap hrest.boundary.notBlank), hstop,
      List.length_cons, Nat.add_right_comm _ 1, Nat.add_assoc _ letters.length 1]
    rfl
  | computed sum =>
    obtain ⟨hfirst, hsum⟩ := h
    have hwritten := hsum
    obtain ⟨front, behind, rfl, hfront, -⟩ := hsum
    have hstar : (scope.script.ahead (pos + before.length)).head? ≠ some Byte.asterisk := by
      rw [hstart, List.append_assoc]
      exact StringTerm.not_asterisk hfront hfirst _
    have hblank : NotBlank (front ++ behind ++ (gap ++ rest)) := by
      rw [List.append_assoc]
      exact StringTerm.notBlank hfront _
    obtain ⟨bytes, hbytes, hkey⟩ := Option.bind_eq_some_iff.mp hname
    have hread : Reads (scope.str ⟨pos + before.length, warnings⟩) _ _ warnings :=
      str_of_written hwide hwritten Blank.nil hgap hrest
        (by rw [hstart]; simp only [List.nil_append, List.append_assoc])
    rw [hbytes] at hread
    rw [Scope.label, Action.bind_of_ok (skipBlanks_of_ahead hahead hbefore hblank),
      Action.bind_of_ok (eat_of_not_ahead hstar), if_neg Bool.false_ne_true,
      Action.bind_of_ok hread, hstop]
    simp only at hkey ⊢
    split at hkey
    · cases hkey
    · next hne =>
      cases hkey
      rw [if_neg hne]
      rfl

end Leading

end Expression

end NovelScript
