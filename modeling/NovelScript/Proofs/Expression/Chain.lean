import NovelScript.Proofs.Expression.Folding
import NovelScript.Proofs.Expression.Numerals

/-!
# Expressions as they are met from left to right

A reader meets a first factor and then, again and again, an operator and a further factor, each
with the blanks after it. This file brings every written form of a sum into that order, and says
what the text of each part begins with and may be followed by.
-/

namespace NovelScript.Expression

/-! ## Blanks -/

/-- No blanks are blanks. -/
theorem Blank.nil : Blank [] := by
  simp [Blank]

/-- The next byte is no blank. -/
def NotBlank (rest : Bytes) : Prop :=
  ∀ b ∈ rest.head?, Byte.isBlank b = false

/-- Text that begins with no blank. -/
theorem NotBlank.cons {b : UInt8} {rest : Bytes} (h : Byte.isBlank b = false) :
    NotBlank (b :: rest) := by
  simpa [NotBlank] using h

/-- Skipping blanks passes over all of them. -/
theorem skipBlanks_append {script : Script} {pos : Nat} {gap rest : Bytes}
    (hahead : script.ahead pos = gap ++ rest) (hgap : Blank gap) (hrest : NotBlank rest) :
    script.skipBlanks pos = pos + gap.length :=
  Script.advanceWhile_append hahead hgap hrest

/-- Where no blank is next nothing is passed over. -/
theorem skipBlanks_eq_self {script : Script} {pos : Nat} (h : NotBlank (script.ahead pos)) :
    script.skipBlanks pos = pos :=
  skipBlanks_append (List.nil_append _).symm Blank.nil h

/-! ## What a text begins with -/

variable {aliases : Aliases}

/-- The bytes that a factor can begin with: that of a name, a digit, a sigil or a parenthesis. -/
def Opens (isName : Bool) (b : UInt8) : Prop :=
  if isName then Byte.isNameStart b = true
  else Byte.isDigit b = true ∨ b = Byte.percent ∨ b = Byte.question ∨ b = Byte.leftParen

/-- A constant begins with a digit, or with the first byte of a name. -/
theorem Constant.opens {number : Constant} {text : Bytes} (h : number.Written aliases text) :
    ∃ b rest, text = b :: rest ∧
      if number.isName then Byte.isNameStart b = true else Byte.isDigit b = true := by
  cases number with
  | literal n =>
    cases h with
    | decimal hnonempty hread hvalue =>
      obtain ⟨b, rest, rfl⟩ := List.exists_cons_of_ne_nil hnonempty
      refine ⟨b, rest, rfl, ?_⟩
      have hsome := (digits_of_mapM hread).2 b (by simp)
      unfold Byte.digit? at hsome
      split at hsome
      · simpa [Constant.isName]
      · simp at hsome
    | hexadecimal hx hread hvalue => exact ⟨_, _, rfl, rfl⟩
  | named name =>
    obtain ⟨⟨first, rest, rfl, hfirst, -⟩, -, -⟩ := h
    exact ⟨first, rest, rfl, hfirst⟩

/-- A constant begins with a byte of a name, which is neither a parenthesis nor a sigil. -/
theorem Constant.opens_plain {number : Constant} {text : Bytes}
    (h : number.Written aliases text) :
    ∃ b rest, text = b :: rest ∧ b ≠ Byte.leftParen ∧ b ≠ Byte.percent ∧ b ≠ Byte.question := by
  obtain ⟨b, rest, rfl, hb⟩ := Constant.opens h
  have hname : Byte.isNameByte b = true := by
    split at hb
    · exact Byte.isNameByte_of_isNameStart hb
    · simp [Byte.isNameByte, hb]
  refine ⟨b, rest, rfl, ?_, ?_, ?_⟩ <;>
  · rintro rfl
    exact absurd hname (by decide)

/-- A target begins with a sigil. -/
theorem Target.opens {target : Target} {text : Bytes} (h : target.Written aliases text) :
    ∃ b rest, text = b :: rest ∧ (b = Byte.percent ∨ b = Byte.question) := by
  cases target with
  | slot number =>
    obtain ⟨digits, rfl, -⟩ := h
    exact ⟨_, _, rfl, .inl rfl⟩
  | element number subscripts =>
    obtain ⟨digits, gap, indices, rfl, -⟩ := h
    exact ⟨_, _, rfl, .inr rfl⟩

/-- Indices begin with a bracket. -/
theorem Subscripts.opens {subscripts : Subscripts} {text : Bytes}
    (h : subscripts.Written aliases text) : ∃ rest, text = Byte.leftBracket :: rest := by
  cases subscripts with
  | last index =>
    obtain ⟨gap, body, gap', rfl, -⟩ := h
    exact ⟨_, rfl⟩
  | more index rest =>
    obtain ⟨gap, body, gap', gap'', further, rfl, -⟩ := h
    exact ⟨_, rfl⟩

/-- What a factor begins with. -/
theorem Factor.opens {factor : Factor} {text : Bytes} (h : factor.Written aliases text) :
    ∃ b rest, text = b :: rest ∧ Opens factor.isName b := by
  cases factor with
  | constant number =>
    obtain ⟨b, rest, rfl, hb⟩ := Constant.opens h
    refine ⟨b, rest, rfl, ?_⟩
    unfold Opens
    cases hname : number.isName <;> simp_all [Factor.isName]
  | read target =>
    obtain ⟨b, rest, rfl, hb⟩ := Target.opens h
    refine ⟨b, rest, rfl, ?_⟩
    unfold Opens
    rcases hb with rfl | rfl <;> simp [Factor.isName]
  | group inner =>
    obtain ⟨gap, body, gap', rfl, -⟩ := h
    exact ⟨_, _, rfl, by simp [Opens, Factor.isName]⟩

/-- A factor begins neither with a blank nor with a minus sign. -/
theorem Opens.plain {isName : Bool} {b : UInt8} (h : Opens isName b) :
    Byte.isBlank b = false ∧ b ≠ Byte.minus := by
  simp only [Opens, Byte.isNameStart, Byte.isAlpha, Byte.isUpper, Byte.isLower, Byte.isDigit,
    Byte.isBlank, Byte.space, Byte.tab, Byte.minus, Byte.underscore, Byte.percent, Byte.question,
    Byte.leftParen] at *
  grind

/-! ## What may follow a factor -/

/-- What may follow a text and the blanks after it: no further blank, no bracket after an array
element, and no byte that would prolong a number or a name. -/
structure Boundary (inName inElement : Bool) (gap rest : Bytes) : Prop where
  /-- All blanks are in the gap. -/
  notBlank : NotBlank rest
  /-- An array element has no further index. -/
  notBracket : inElement = true → ∀ b ∈ rest.head?, b ≠ Byte.leftBracket
  /-- A number or a name goes no further. -/
  apart : Apart inName (gap ++ rest)

/-- A text closes at a byte that is no part of any expression. -/
theorem Closes.plain {rest : Bytes} (h : Closes rest) :
    ∀ b ∈ rest.head?, Byte.isBlank b = false ∧ b ≠ Byte.leftBracket ∧
      Byte.isNameByte b = false ∧ b ≠ Byte.minus ∧ b ≠ Byte.plus ∧ b ≠ Byte.asterisk ∧
      b ≠ Byte.slash := by
  intro b hb
  have hmem := h b hb
  simp only [List.mem_cons, List.not_mem_nil, or_false] at hmem
  rcases hmem with rfl | rfl | rfl | rfl | rfl | rfl <;> decide

/-- Blanks keep a number or a name apart from what follows them. -/
theorem Apart.of_blank {inName : Bool} {gap rest : Bytes} (hgap : Blank gap)
    (h : gap = [] → Apart inName rest) : Apart inName (gap ++ rest) := by
  cases gap with
  | nil => exact h rfl
  | cons b gap =>
    intro c hc hname
    obtain rfl : b = c := by simpa using hc
    rw [Byte.isNameByte_eq_false_of_isBlank (hgap b (by simp))] at hname
    exact absurd hname (by decide)

/-- Indices end the number of the array before them, if that does not end in an array element. -/
theorem Boundary.of_subscripts {subscripts : Subscripts} {indices gap : Bytes} {inElement : Bool}
    (h : subscripts.Written aliases indices) (hgap : Blank gap) (hplain : inElement = false)
    (inName : Bool) (rest : Bytes) : Boundary inName inElement gap (indices ++ rest) := by
  obtain ⟨further, rfl⟩ := Subscripts.opens h
  refine ⟨?_, ?_, Apart.of_blank hgap ?_⟩
  · intro b hb
    obtain rfl : Byte.leftBracket = b := by simpa using hb
    decide
  · rw [hplain]
    exact fun h => absurd h (by decide)
  · rintro - b hb hname
    obtain rfl : Byte.leftBracket = b := by simpa using hb
    exact absurd hname (by decide)

/-- The remainder operator comes next: its word, and something that can start a term. -/
def RemainderNext (rest : Bytes) : Prop :=
  (rest.take 3).map Byte.lower = [0x6d, 0x6f, 0x64] ∧
    ∃ b ∈ (rest.drop 3).head?, (Byte.isBlank b || Byte.isSigil b || b == Byte.leftParen ||
      Byte.isDigit b) = true

/-- What may follow an expression and the blanks after it: no further blank, no operator, no
bracket, and right behind the expression no byte of a name. -/
structure Stops (gap rest : Bytes) : Prop where
  /-- All blanks are in the gap. -/
  notBlank : NotBlank rest
  /-- No operator that is a sign, and no index. -/
  notSign : ∀ b ∈ rest.head?, b ≠ Byte.leftBracket ∧ b ≠ Byte.minus ∧ b ≠ Byte.plus ∧
    b ≠ Byte.asterisk ∧ b ≠ Byte.slash
  /-- No operator that is a word. -/
  notRemainder : ¬ RemainderNext rest
  /-- A number or a name goes no further. -/
  apart : gap = [] → ∀ b ∈ rest.head?, Byte.isNameByte b = false

/-- Where a byte that is no byte of a name comes next, no remainder operator does. -/
theorem not_remainderNext {rest : Bytes} (h : ∀ b ∈ rest.head?, Byte.isNameByte b = false) :
    ¬ RemainderNext rest := by
  rintro ⟨hword, -⟩
  cases rest with
  | nil => cases hword
  | cons b rest =>
    have hm : Byte.lower b = 0x6d := (List.cons.inj hword).1
    have hname := h b rfl
    rw [← Byte.isNameByte_lower, hm] at hname
    exact absurd hname (by decide)

/-- An expression stops where it closes. -/
theorem Closes.stops {rest : Bytes} (h : Closes rest) (gap : Bytes) : Stops gap rest where
  notBlank b hb := (h.plain b hb).1
  notSign b hb :=
    have ⟨_, hbracket, _, hminus, hplus, hasterisk, hslash⟩ := h.plain b hb
    ⟨hbracket, hminus, hplus, hasterisk, hslash⟩
  notRemainder := not_remainderNext fun b hb => (h.plain b hb).2.2.1
  apart _ b hb := (h.plain b hb).2.2.1

/-- Where an expression stops, its last factor ends. -/
theorem Stops.boundary {gap rest : Bytes} (h : Stops gap rest) (inName inElement : Bool)
    (hgap : Blank gap) : Boundary inName inElement gap rest where
  notBlank := h.notBlank
  notBracket _ b hb := (h.notSign b hb).1
  apart := Apart.of_blank hgap fun hnil b hb hname => by
    rw [h.apart hnil b hb] at hname
    exact absurd hname (by decide)

/-! ## Chains -/

/-- The ways to write the links of a chain. Each link is an operator, blanks, a factor and the
blanks after it. `inName` says whether the text in front ends in a name, and `gap` are the blanks
after it; `inName'` and `gap'` say the same of the whole. -/
inductive Tail (aliases : Aliases) : (inName : Bool) → (gap : Bytes) → List Link → Bytes →
    (inName' : Bool) → (gap' : Bytes) → Prop where
  /-- No link. -/
  | nil (inName : Bool) (gap : Bytes) : Tail aliases inName gap [] [] inName gap
  /-- A link in front of others. -/
  | cons {inName inName' : Bool} {before before' : Bytes} {op : Operator} {factor : Factor}
      {links : List Link} {symbol gap text gap' more : Bytes}
      (symbol_written : op.Written symbol) (blank : Blank gap)
      (written : factor.Written aliases text) (blank' : Blank gap')
      (apart : op = .mod → inName = true → before ≠ [])
      (apart' : op = .mod → factor.isName = true → gap ≠ [])
      (tail : Tail aliases factor.endsInName gap' links more inName' before') :
      Tail aliases inName before ((op, factor) :: links) (symbol ++ gap ++ text ++ gap' ++ more)
        inName' before'

/-- Chains can be joined. -/
theorem Tail.append {inName middle inName' : Bool} {before between after : Bytes}
    {front rest : List Link} {text more : Bytes}
    (h : Tail aliases inName before front text middle between)
    (h' : Tail aliases middle between rest more inName' after) :
    Tail aliases inName before (front ++ rest) (text ++ more) inName' after := by
  induction h with
  | nil => exact h'
  | cons hsymbol hgap htext hgap' hapart hapart' _ ih =>
    have := Tail.cons hsymbol hgap htext hgap' hapart hapart' (ih h')
    simpa only [List.append_assoc, List.cons_append] using this

/-- A written form in the order in which it is read: a first factor, blanks, and links. -/
def Chained (aliases : Aliases) (first last : Factor) (links : List Link) (text gap : Bytes) :
    Prop :=
  ∃ head between tail, text ++ gap = head ++ between ++ tail ∧ first.Written aliases head ∧
    Blank between ∧ Tail aliases first.endsInName between links tail last.endsInName gap

/-- A factor by itself is a chain without links. -/
theorem Chained.single {factor : Factor} {text gap : Bytes} (h : factor.Written aliases text)
    (hgap : Blank gap) : Chained aliases factor factor [] text gap :=
  ⟨text, gap, [], by simp, h, hgap, .nil _ _⟩

/-- A chain goes on with an operator and a further chain. -/
theorem Chained.join {first last next last' : Factor} {op : Operator} {links further : List Link}
    {left joint right gap : Bytes}
    (h : ∀ {gap}, Blank gap → Chained aliases first last links left gap)
    (hjoint : Joint last op next joint) (h' : Chained aliases next last' further right gap) :
    Chained aliases first last' (links ++ (op, next) :: further) (left ++ joint ++ right) gap := by
  obtain ⟨hblank, hsymbol, hblank', hapart, hapart'⟩ := hjoint
  rename_i before symbol after
  obtain ⟨head, between, tail, htext, hhead, hbetween, htail⟩ := h hblank
  obtain ⟨head', between', tail', htext', hhead', hbetween', htail'⟩ := h'
  refine ⟨head, between, tail ++ (symbol ++ after ++ head' ++ between' ++ tail'), ?_, hhead,
    hbetween, htail.append (.cons hsymbol hblank' hhead' hbetween' hapart hapart' htail')⟩
  have hleft : left ++ before ++ (symbol ++ after ++ (right ++ gap)) =
      head ++ between ++ tail ++ (symbol ++ after ++ (head' ++ between' ++ tail')) := by
    rw [htext, htext']
  simpa only [List.append_assoc] using hleft

/-- Every written form of a product is a chain. -/
theorem Product.chained {product : Product} {text : Bytes} (h : product.Written aliases text)
    {gap : Bytes} (hgap : Blank gap) :
    Chained aliases product.first product.last product.links text gap := by
  match product, h with
  | .single factor, h => exact .single h hgap
  | .join lhs op rhs, ⟨left, joint, right, htext, hleft, hjoint, hright⟩ =>
    rw [htext]
    exact .join (fun hgap => Product.chained hleft hgap) hjoint (.single hright hgap)

/-- Every written form of a sum is a chain. -/
theorem Sum.chained {sum : Sum} {text : Bytes} (h : sum.Written aliases text) {gap : Bytes}
    (hgap : Blank gap) : Chained aliases sum.first sum.last sum.links text gap := by
  match sum, h with
  | .single product, h => exact Product.chained h hgap
  | .join lhs op rhs, ⟨left, joint, right, htext, hleft, hjoint, hright⟩ =>
    rw [htext]
    exact .join (fun hgap => Sum.chained hleft hgap) hjoint (Product.chained hright hgap)

/-- The symbol of an operator begins with a byte that is no blank, no bracket and no byte of a
name, unless it is the remainder operator. -/
theorem symbol_opens {op : Operator} {symbol : Bytes} (h : op.Written symbol) :
    ∃ b rest, symbol = b :: rest ∧ Byte.isBlank b = false ∧ b ≠ Byte.leftBracket ∧
      (Byte.isNameByte b = true → op = .mod ∧ Byte.lower b = 0x6d) := by
  cases op with
  | mod =>
    obtain ⟨m, rest, rfl, hm, -⟩ := List.map_eq_cons_iff.mp h
    refine ⟨m, rest, rfl, ?_, ?_, fun _ => ⟨rfl, hm⟩⟩
    · simp only [Byte.lower, Byte.isUpper, Byte.isBlank, Byte.space, Byte.tab] at *
      grind
    · rintro rfl
      exact absurd hm (by decide)
  | add | sub | mul | div =>
    obtain rfl := h
    exact ⟨_, [], rfl, by decide, by decide, by decide⟩

/-- The factor in front of a chain ends where the chain, or what stops the expression, begins. -/
theorem Tail.boundary {inName inName' : Bool} (inElement : Bool) {gap gap' : Bytes}
    {links : List Link} {text rest : Bytes} (hgap : Blank gap)
    (h : Tail aliases inName gap links text inName' gap') (hrest : Stops gap' rest) :
    Boundary inName inElement gap (text ++ rest) := by
  cases h with
  | nil => exact hrest.boundary inName inElement hgap
  | cons hsymbol _ _ _ hapart _ _ =>
    obtain ⟨b, symbol, rfl, hblank, hbracket, hname⟩ := symbol_opens hsymbol
    refine ⟨?_, ?_, Apart.of_blank hgap ?_⟩
    · exact .cons hblank
    · intro _ c hc
      obtain rfl : b = c := by simpa using hc
      exact hbracket
    · intro hnil c hc hc'
      obtain rfl : b = c := by simpa using hc
      obtain ⟨hmod, hm⟩ := hname hc'
      refine ⟨?_, hm⟩
      cases hinName : inName with
      | false => rfl
      | true => exact absurd hnil (hapart hmod hinName)

end NovelScript.Expression
