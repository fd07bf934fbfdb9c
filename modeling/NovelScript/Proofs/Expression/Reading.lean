import NovelScript.Proofs.Expression.Chain

/-!
# Reading expressions

The reader of integer expressions agrees with the value of the tree that was written. Every reader
is proved for all texts at once, by induction on the number of calls that it may still make; four
calls to the byte are enough, so the bound that the engine starts with is never reached.
-/

namespace NovelScript.Expression

open Operand

/-! ## Outcomes -/

variable {α β : Type}

/-- A reader either finds the value and passes over everything up to `stop` without a warning, or,
if there is no value, fails. -/
def Reads (result : EStateM.Result Fault Cursor α) (value : Option α) (stop : Nat)
    (warnings : List Warning) : Prop :=
  match value with
  | some a => result = .ok a ⟨stop, warnings⟩
  | none => ∃ fault cursor, result = .error fault cursor

/-- Two readers in a row, of which the first one gives its value in another form. -/
theorem Reads.bind_map {γ : Type} {x : Reader β} {f : β → Reader γ} {cursor : Cursor}
    {value : Option α} {form : α → β} {next : α → Option γ} {middle stop : Nat}
    {warnings : List Warning} (hx : Reads (x cursor) (value.map form) middle warnings)
    (hf : ∀ a, Reads (f (form a) ⟨middle, warnings⟩) (next a) stop warnings) :
    Reads ((x >>= f) cursor) (value.bind next) stop warnings := by
  cases value with
  | none =>
    obtain ⟨fault, cursor', h⟩ := hx
    exact ⟨fault, cursor', Action.bind_of_error h f⟩
  | some a =>
    rw [Action.bind_of_ok hx]
    exact hf a

/-- Two readers in a row. -/
theorem Reads.bind {x : Reader α} {f : α → Reader β} {cursor : Cursor} {value : Option α}
    {next : α → Option β} {middle stop : Nat} {warnings : List Warning}
    (hx : Reads (x cursor) value middle warnings)
    (hf : ∀ a, Reads (f a ⟨middle, warnings⟩) (next a) stop warnings) :
    Reads ((x >>= f) cursor) (value.bind next) stop warnings := by
  have hx' : Reads (x cursor) (value.map id) middle warnings := by rwa [Option.map_id]
  exact Reads.bind_map hx' hf

/-- A computation without reading. -/
theorem Reads.ofExcept (result : Except Fault α) (pos : Nat) (warnings : List Warning) :
    Reads (Action.ofExcept result ⟨pos, warnings⟩) result.toOption pos warnings := by
  cases result with
  | ok a => rfl
  | error fault => exact ⟨fault, _, rfl⟩

/-- A value that is there already. -/
theorem Reads.pure {pos stop : Nat} (h : pos = stop) (a : α) (warnings : List Warning) :
    Reads ((Pure.pure a : Reader α) ⟨pos, warnings⟩) (some a) stop warnings := by
  rw [h]
  rfl

variable {scope : Scope} {pos : Nat} {warnings : List Warning}

/-- Passing over a byte that is next. -/
theorem eat_of_ahead {b : UInt8} {rest : Bytes} (h : scope.script.ahead pos = b :: rest) :
    scope.eat b ⟨pos, warnings⟩ = .ok true ⟨pos + 1, warnings⟩ := by
  have hat : scope.script.isAt pos b = true := by simp [Script.isAt_cons h]
  rw [Scope.eat, Action.bind_of_ok (show position _ = .ok pos _ from rfl), hat]
  rfl

/-- A byte that is not next is not passed over. -/
theorem eat_of_not_ahead {b : UInt8} (h : (scope.script.ahead pos).head? ≠ some b) :
    scope.eat b ⟨pos, warnings⟩ = .ok false ⟨pos, warnings⟩ := by
  rw [Scope.eat, Action.bind_of_ok (show position _ = .ok pos _ from rfl),
    Script.isAt_eq_false h]
  rfl

/-- Passing over blanks. -/
theorem skipBlanks_of_ahead {gap rest : Bytes} (h : scope.script.ahead pos = gap ++ rest)
    (hgap : Blank gap) (hrest : NotBlank rest) :
    scope.skipBlanks ⟨pos, warnings⟩ = .ok () ⟨pos + gap.length, warnings⟩ := by
  rw [← skipBlanks_append h hgap hrest]
  rfl

/-- Where no blank is next nothing is passed over. -/
theorem skipBlanks_of_notBlank (h : NotBlank (scope.script.ahead pos)) :
    scope.skipBlanks ⟨pos, warnings⟩ = .ok () ⟨pos, warnings⟩ :=
  skipBlanks_of_ahead (List.nil_append _).symm Blank.nil h

/-- A byte that is no blank is next. -/
theorem notBlank_of_cons {b : UInt8} {rest : Bytes} (h : scope.script.ahead pos = b :: rest)
    (hb : Byte.isBlank b = false) : NotBlank (scope.script.ahead pos) := by
  rw [h]
  exact .cons hb

/-- After a target, with or without the blanks that follow it, all blanks are passed over. -/
theorem skipBlanks_after (warnings : List Warning) {text gap rest : Bytes}
    (h : scope.script.ahead pos = text ++ gap ++ rest)
    (hgap : Blank gap) (hrest : NotBlank rest) (passed : Bool) :
    scope.skipBlanks ⟨pos + text.length + (if passed then gap.length else 0), warnings⟩ =
      .ok () ⟨pos + text.length + gap.length, warnings⟩ := by
  have hahead : scope.script.ahead (pos + text.length) = gap ++ rest :=
    Script.ahead_add_length (by rw [h, List.append_assoc])
  cases passed with
  | false => exact skipBlanks_of_ahead hahead hgap hrest
  | true =>
    refine skipBlanks_of_notBlank ?_
    rwa [if_pos rfl, Script.ahead_add_length hahead]

/-- Passing over the bracket that must be next. -/
theorem close_of_ahead {b : UInt8} {rest : Bytes} (h : scope.script.ahead pos = b :: rest)
    (hb : Byte.isBlank b = false) (fault : Fault) (next : Reader α) :
    (do
        scope.skipBlanks
        unless ← scope.eat b do throw fault
        next : Reader α) ⟨pos, warnings⟩ =
      next ⟨pos + 1, warnings⟩ := by
  rw [Action.bind_of_ok (skipBlanks_of_notBlank (notBlank_of_cons h hb)),
    Action.bind_of_ok (eat_of_ahead h)]
  rfl

/-! ## The readers, call by call -/

/-- All readers of expressions find what was written, if they may make the given number of
calls. -/
structure ReadsWithin (scope : Scope) (calls : Nat) : Prop where
  /-- Expressions. -/
  expression : ∀ {tree : Tree} {gap text gap' rest : Bytes} {pos : Nat} (warnings : List Warning),
    tree.Written scope.aliases text → Blank gap → Blank gap' → Stops gap' rest →
    scope.script.ahead pos = gap ++ text ++ gap' ++ rest →
    4 * (text.length + gap'.length) + 2 ≤ calls →
    Reads (scope.expression calls ⟨pos, warnings⟩) (tree.value? scope.store scope.aliases)
      (pos + gap.length + text.length + gap'.length) warnings
  /-- The links of a chain after the second factor. -/
  tail : ∀ {inName inName' : Bool} {gap gap' : Bytes} {links : List Link} {text rest : Bytes}
    {pos : Nat} (warnings : List Warning) (lhs : Int32) (op : Operator) (rhs : Int32),
    Tail scope.aliases inName gap links text inName' gap' → Stops gap' rest →
    scope.script.ahead pos = text ++ rest → 4 * text.length + 1 ≤ calls →
    Reads (scope.continuation calls lhs op rhs ⟨pos, warnings⟩)
      (((View.two lhs op rhs).run? scope.store scope.aliases links).bind View.value?)
      (pos + text.length) warnings
  /-- One link of a chain. -/
  link : ∀ {op : Operator} {factor : Factor} {symbol gap text gap' rest : Bytes} {pos : Nat}
    (warnings : List Warning),
    op.Written symbol → Blank gap → factor.Written scope.aliases text → Blank gap' →
    (op = .mod → factor.isName = true → gap ≠ []) →
    Boundary factor.endsInName factor.endsInElement gap' rest →
    scope.script.ahead pos = symbol ++ gap ++ text ++ gap' ++ rest →
    4 * text.length + 2 ≤ calls →
    Reads (scope.operation? calls ⟨pos, warnings⟩)
      ((factor.value? scope.store scope.aliases).map fun value => some (op, value))
      (pos + symbol.length + gap.length + text.length + gap'.length) warnings
  /-- Factors. -/
  factor : ∀ {factor : Factor} {text gap rest : Bytes} {pos : Nat} (warnings : List Warning),
    factor.Written scope.aliases text → Blank gap →
    Boundary factor.endsInName factor.endsInElement gap rest →
    scope.script.ahead pos = text ++ gap ++ rest → 4 * text.length + 1 ≤ calls →
    Reads (scope.factor calls ⟨pos, warnings⟩)
      ((factor.value? scope.store scope.aliases).map some)
      (pos + text.length + gap.length) warnings
  /-- Variables and array elements. The blanks after an element are passed over. -/
  target : ∀ {target : Target} {text gap rest : Bytes} {pos : Nat} (warnings : List Warning),
    target.Written scope.aliases text → Blank gap →
    Boundary target.endsInName target.endsInElement gap rest →
    scope.script.ahead pos = text ++ gap ++ rest → 4 * text.length ≤ calls →
    Reads (scope.intRefWithin calls ⟨pos, warnings⟩)
      (target.reference? scope.store scope.aliases)
      (pos + text.length + if target.endsInElement then gap.length else 0) warnings
  /-- Numbers after a sigil. -/
  index : ∀ {index : Index} {text gap rest : Bytes} {pos : Nat} (warnings : List Warning),
    index.Written scope.aliases text → Blank gap →
    Boundary index.endsInName index.endsInElement gap rest →
    scope.script.ahead pos = text ++ gap ++ rest → 4 * text.length + 1 ≤ calls →
    Reads (scope.indexTerm calls ⟨pos, warnings⟩) (index.value? scope.store scope.aliases)
      (pos + text.length + if index.endsInElement then gap.length else 0) warnings
  /-- Indices in brackets, and the blanks after them. -/
  subscripts : ∀ {subscripts : Subscripts} {text gap rest : Bytes} {pos : Nat}
    (warnings : List Warning) (no : Int32),
    subscripts.Written scope.aliases text → Blank gap → NotBlank rest →
    (∀ b ∈ rest.head?, b ≠ Byte.leftBracket) →
    scope.script.ahead pos = text ++ gap ++ rest → 4 * text.length ≤ calls →
    Reads (scope.subscripts calls no ⟨pos, warnings⟩)
      (subscripts.values? scope.store scope.aliases)
      (pos + text.length + gap.length) warnings

/-- The remainder operator is found exactly where it comes next. -/
theorem isModAt_iff : scope.isModAt pos = true ↔ RemainderNext (scope.script.ahead pos) := by
  rw [Scope.isModAt, Bool.and_eq_true, Script.startsWithWord_iff, Script.holdsAt_eq,
    Script.ahead_add, Option.any_eq_true]
  rfl

/-- Where an expression stops there is no further operator. -/
theorem operation?_of_stops (calls : Nat) {gap : Bytes} (h : Stops gap (scope.script.ahead pos)) :
    scope.operation? calls ⟨pos, warnings⟩ = .ok none ⟨pos, warnings⟩ := by
  cases calls with
  | zero => rfl
  | succ calls =>
    have hmod : scope.isModAt pos = false := by
      rw [← Bool.not_eq_true, isModAt_iff]
      exact h.notRemainder
    have hnone : scope.operatorAt? pos = none := by
      unfold Scope.operatorAt?
      rw [Script.byte?_eq_head?]
      cases hhead : (scope.script.ahead pos).head? with
      | none => rfl
      | some b =>
        obtain ⟨-, hminus, hplus, hasterisk, hslash⟩ := h.notSign b hhead
        simp [hminus, hplus, hasterisk, hslash, hmod]
    rw [Scope.operation?,
      Action.bind_of_ok (skipBlanks_of_notBlank h.notBlank),
      Action.bind_of_ok (show position _ = .ok pos _ from rfl), hnone]
    rfl

/-- An operator is found where it was written. The remainder operator needs something after it
that can start a term. -/
theorem operatorAt?_of_written {op : Operator} {symbol follow : Bytes} (h : op.Written symbol)
    (hahead : scope.script.ahead pos = symbol ++ follow)
    (hmod : op = .mod → ∃ b ∈ follow.head?, (Byte.isBlank b || Byte.isSigil b ||
      b == Byte.leftParen || Byte.isDigit b) = true) :
    scope.operatorAt? pos = some (op, pos + symbol.length) := by
  unfold Scope.operatorAt?
  cases op with
  | add | sub | mul | div =>
    obtain rfl := h
    rw [Script.byte?_eq_head?, hahead]
    rfl
  | mod =>
    have hlength : symbol.length = 3 := by simpa using congrArg List.length h
    have hat : scope.isModAt pos = true := by
      obtain ⟨b, hb, hstart⟩ := hmod rfl
      have hword : scope.script.startsWithWord [0x6d, 0x6f, 0x64] pos = true := by
        rw [Script.startsWithWord_iff, hahead,
          show ([0x6d, 0x6f, 0x64] : Bytes).length = symbol.length from hlength.symm,
          List.take_left, h]
        rfl
      rw [Scope.isModAt, hword, Script.holdsAt_eq, ← hlength, Script.ahead_add_length hahead,
        Option.mem_def.mp hb]
      simpa using hstart
    obtain ⟨m, rest, rfl, hm, -⟩ := List.map_eq_cons_iff.mp h
    have hplain : m ≠ Byte.plus ∧ m ≠ Byte.minus ∧ m ≠ Byte.asterisk ∧ m ≠ Byte.slash := by
      refine ⟨?_, ?_, ?_, ?_⟩ <;>
      · rintro rfl
        exact absurd hm (by decide)
    rw [Script.byte?_eq_head?, hahead, hlength]
    simp [hplain, hat]

/-- Without a bracket there is no index. -/
theorem subscripts_of_not_bracket (calls : Nat) (no : Int32)
    (h : ∀ b ∈ (scope.script.ahead pos).head?, b ≠ Byte.leftBracket) :
    scope.subscripts calls no ⟨pos, warnings⟩ = .ok [] ⟨pos, warnings⟩ := by
  cases calls with
  | zero => rfl
  | succ calls =>
    have hhead : (scope.script.ahead pos).head? ≠ some Byte.leftBracket := by
      intro hhead
      exact h _ hhead rfl
    rw [Scope.subscripts, Action.bind_of_ok (eat_of_not_ahead hhead)]
    rfl

variable {calls : Nat}

/-- An expression is read up to where it closes. -/
theorem ReadsWithin.tree (h : ReadsWithin scope calls) {tree : Tree} {gap text gap' rest : Bytes}
    (warnings : List Warning) (hwritten : tree.Written scope.aliases text) (hgap : Blank gap)
    (hgap' : Blank gap') (hrest : Closes rest)
    (hahead : scope.script.ahead pos = gap ++ text ++ gap' ++ rest)
    (hcalls : 4 * (text.length + gap'.length) + 2 ≤ calls) :
    Reads (scope.expression calls ⟨pos, warnings⟩) (tree.value? scope.store scope.aliases)
      (pos + gap.length + text.length + gap'.length) warnings :=
  h.expression warnings hwritten hgap hgap' (hrest.stops gap') hahead hcalls

/-- An expression in brackets is read up to and over the closing bracket. -/
theorem ReadsWithin.enclosed (ih : ReadsWithin scope calls) {inner : Tree} {close : UInt8}
    {left body right follow : Bytes} {fault : Fault} {f : Int32 → Reader α}
    {next : Int32 → Option α} {stop : Nat}
    (hclose : close = Byte.rightParen ∨ close = Byte.rightBracket)
    (hinner : inner.Written scope.aliases body) (hleft : Blank left) (hright : Blank right)
    (hahead : scope.script.ahead pos = left ++ body ++ right ++ close :: follow)
    (hcalls : 4 * (body.length + right.length) + 2 ≤ calls)
    (hf : ∀ value, Reads (f value ⟨pos + (left ++ body ++ right).length + 1, warnings⟩)
      (next value) stop warnings) :
    Reads ((do
        let value ← scope.expression calls
        scope.skipBlanks
        unless ← scope.eat close do throw fault
        f value : Reader α) ⟨pos, warnings⟩)
      ((inner.value? scope.store scope.aliases).bind next) stop warnings := by
  have hcloses : Closes (close :: follow) := by
    intro b hb
    obtain rfl : close = b := by simpa using hb
    rcases hclose with rfl | rfl <;> decide
  have hblank : Byte.isBlank close = false := by
    rcases hclose with rfl | rfl <;> rfl
  have hmiddle : pos + left.length + body.length + right.length =
      pos + (left ++ body ++ right).length := by
    simp only [List.length_append]
    omega
  refine Reads.bind (ih.tree warnings hinner hleft hright hcloses hahead hcalls) ?_
  intro value
  rw [hmiddle, close_of_ahead (Script.ahead_add_length hahead) hblank]
  exact hf value

/-- A constant starts with neither a sigil nor a parenthesis. -/
theorem not_sigil_of_constant {number : Constant} {text rest : Bytes}
    (h : number.Written scope.aliases text) (hahead : scope.script.ahead pos = text ++ rest) :
    (scope.script.isAt pos Byte.percent || scope.script.isAt pos Byte.question) = false ∧
      (scope.script.ahead pos).head? ≠ some Byte.leftParen := by
  obtain ⟨b, text, rfl, hparen, hpercent, hquestion⟩ := Constant.opens_plain h
  have hopen : scope.script.ahead pos = b :: (text ++ rest) := hahead
  refine ⟨?_, by simp [hopen, hparen]⟩
  simp [Script.isAt_cons hopen, hpercent, hquestion]

/-- A variable starts with a sigil. -/
theorem sigil_of_target {target : Target} {text rest : Bytes}
    (h : target.Written scope.aliases text) (hahead : scope.script.ahead pos = text ++ rest) :
    (scope.script.isAt pos Byte.percent || scope.script.isAt pos Byte.question) = true ∧
      (scope.script.ahead pos).head? ≠ some Byte.leftParen := by
  obtain ⟨b, text, rfl, hb⟩ := Target.opens h
  have hopen : scope.script.ahead pos = b :: (text ++ rest) := hahead
  have hparen : b ≠ Byte.leftParen := by rcases hb with rfl | rfl <;> decide
  refine ⟨?_, by simp [hopen, hparen]⟩
  rcases hb with rfl | rfl <;> simp [Script.isAt_cons hopen]

/-- A factor is read with one more call. -/
theorem ReadsWithin.factor_succ (ih : ReadsWithin scope calls) {factor : Factor}
    {text gap rest : Bytes} (h : factor.Written scope.aliases text) (hgap : Blank gap)
    (hboundary : Boundary factor.endsInName factor.endsInElement gap rest)
    (hahead : scope.script.ahead pos = text ++ gap ++ rest)
    (hcalls : 4 * text.length + 1 ≤ calls + 1) :
    Reads (scope.factor (calls + 1) ⟨pos, warnings⟩)
      ((factor.value? scope.store scope.aliases).map some)
      (pos + text.length + gap.length) warnings := by
  rw [Scope.factor]
  cases factor with
  | constant number =>
    have hahead' : scope.script.ahead pos = text ++ (gap ++ rest) := by
      rw [hahead, List.append_assoc]
    obtain ⟨value, hvalue, hread⟩ := number?_of_written warnings h hahead' hboundary.apart
    obtain ⟨hsigil, hparen⟩ := not_sigil_of_constant h hahead'
    rw [Action.bind_of_ok (eat_of_not_ahead hparen), if_neg (by decide),
      Action.bind_of_ok (show position _ = .ok pos _ from rfl), hsigil, if_neg (by decide),
      Action.bind_of_ok hread, Action.bind_of_ok
        (skipBlanks_of_ahead (Script.ahead_add_length hahead') hgap hboundary.notBlank),
      Factor.value?, hvalue]
    exact Reads.pure rfl _ _
  | read target =>
    obtain ⟨hsigil, hparen⟩ := sigil_of_target h (hahead.trans (List.append_assoc _ _ _))
    rw [Action.bind_of_ok (eat_of_not_ahead hparen), if_neg (by decide),
      Action.bind_of_ok (show position _ = .ok pos _ from rfl), hsigil, if_pos rfl,
      Factor.value?, Option.map_eq_bind, Option.bind_eq_bind, Option.bind_assoc]
    refine Reads.bind (ih.target warnings h hgap hboundary hahead (by omega)) ?_
    intro reference
    refine Reads.bind (Reads.ofExcept _ _ _) ?_
    intro value
    rw [Action.bind_of_ok (skipBlanks_after warnings hahead hgap hboundary.notBlank target.endsInElement)]
    exact Reads.pure rfl _ _
  | group inner =>
    obtain ⟨left, body, right, rfl, hleft, hinner, hright⟩ := h
    have hopen : scope.script.ahead pos = Byte.leftParen ::
        (left ++ body ++ right ++ (Byte.rightParen :: (gap ++ rest))) := by
      simpa using hahead
    have hinside := Script.ahead_succ hopen
    have hafter := Script.ahead_succ (Script.ahead_add_length hinside)
    have hlength : 4 * (body.length + right.length) + 2 ≤ calls := by
      simp only [List.length_append, List.length_cons, List.length_nil] at hcalls
      omega
    rw [Action.bind_of_ok (eat_of_ahead hopen), if_pos rfl, Factor.value?, Option.map_eq_bind]
    refine ih.enclosed (.inl rfl) hinner hleft hright hinside hlength ?_
    intro value
    rw [Action.bind_of_ok (skipBlanks_of_ahead hafter hgap hboundary.notBlank)]
    refine Reads.pure ?_ _ _
    simp only [List.length_append, List.length_cons, List.length_nil]
    omega

/-- A number after a sigil is read with one more call. -/
theorem ReadsWithin.index_succ (ih : ReadsWithin scope calls) {index : Index}
    {text gap rest : Bytes} (h : index.Written scope.aliases text) (hgap : Blank gap)
    (hboundary : Boundary index.endsInName index.endsInElement gap rest)
    (hahead : scope.script.ahead pos = text ++ gap ++ rest)
    (hcalls : 4 * text.length + 1 ≤ calls + 1) :
    Reads (scope.indexTerm (calls + 1) ⟨pos, warnings⟩)
      (index.value? scope.store scope.aliases)
      (pos + text.length + if index.endsInElement then gap.length else 0) warnings := by
  rw [Scope.indexTerm, Action.bind_of_ok (show position _ = .ok pos _ from rfl)]
  cases index with
  | constant number =>
    have hahead' : scope.script.ahead pos = text ++ (gap ++ rest) := by
      rw [hahead, List.append_assoc]
    obtain ⟨value, hvalue, hread⟩ := number?_of_written warnings h hahead' hboundary.apart
    obtain ⟨hsigil, -⟩ := not_sigil_of_constant h hahead'
    rw [hsigil, if_neg (by decide), Action.bind_of_ok hread, Index.value?, hvalue]
    exact Reads.pure rfl _ _
  | read target =>
    obtain ⟨hsigil, -⟩ := sigil_of_target h (hahead.trans (List.append_assoc _ _ _))
    rw [hsigil, if_pos rfl, Index.value?]
    refine Reads.bind (ih.target warnings h hgap hboundary hahead (by omega)) ?_
    intro reference
    exact Reads.ofExcept _ _ _

/-- An integer variable is read with one more call. -/
theorem ReadsWithin.slot_succ (ih : ReadsWithin scope calls) {number : Index}
    {digits gap rest : Bytes} (h : number.Written scope.aliases digits) (hgap : Blank gap)
    (hboundary : Boundary number.endsInName number.endsInElement gap rest)
    (hahead : scope.script.ahead pos = Byte.percent :: (digits ++ gap ++ rest))
    (hcalls : 4 * digits.length + 1 ≤ calls) :
    Reads (scope.intRefWithin (calls + 1) ⟨pos, warnings⟩)
      ((Target.slot number).reference? scope.store scope.aliases)
      (pos + 1 + digits.length + if number.endsInElement then gap.length else 0) warnings := by
  rw [Scope.intRefWithin,
    Action.bind_of_ok (skipBlanks_of_notBlank (notBlank_of_cons hahead (by decide))),
    Action.bind_of_ok (eat_of_ahead hahead), if_pos rfl, Target.reference?]
  refine Reads.bind (ih.index warnings h hgap hboundary (Script.ahead_succ hahead) hcalls) ?_
  intro n
  refine Reads.bind (Reads.ofExcept _ _ _) ?_
  intro slot
  exact Reads.pure rfl _ _

/-- An array element is read with one more call, together with the blanks after it. -/
theorem ReadsWithin.element_succ (ih : ReadsWithin scope calls) {number : Index}
    {subscripts : Subscripts} {digits between indices gap rest : Bytes}
    (hplain : number.endsInElement = false) (hdigits : number.Written scope.aliases digits)
    (hbetween : Blank between) (hindices : subscripts.Written scope.aliases indices)
    (hgap : Blank gap) (hblank : NotBlank rest) (hbracket : ∀ b ∈ rest.head?, b ≠ Byte.leftBracket)
    (hahead : scope.script.ahead pos =
      Byte.question :: (digits ++ between ++ (indices ++ gap ++ rest)))
    (hcalls : 4 * (digits.length + indices.length) + 1 ≤ calls) :
    Reads (scope.intRefWithin (calls + 1) ⟨pos, warnings⟩)
      ((Target.element number subscripts).reference? scope.store scope.aliases)
      (pos + 1 + digits.length + between.length + indices.length + gap.length) warnings := by
  have hnumber := Script.ahead_succ hahead
  have hboundary : Boundary number.endsInName number.endsInElement between
      (indices ++ gap ++ rest) := by
    rw [List.append_assoc]
    exact .of_subscripts hindices hbetween hplain _ _
  have hskip := skipBlanks_after warnings hnumber hbetween hboundary.notBlank
    number.endsInElement
  have hopen : scope.script.ahead (pos + 1 + digits.length + between.length) =
      indices ++ gap ++ rest := by
    have := Script.ahead_add_length hnumber
    simpa only [List.length_append, ← Nat.add_assoc] using this
  rw [Scope.intRefWithin,
    Action.bind_of_ok (skipBlanks_of_notBlank (notBlank_of_cons hahead (by decide))),
    Action.bind_of_ok (eat_of_not_ahead (by simp [hahead, Byte.question, Byte.percent])),
    if_neg (by decide), Action.bind_of_ok (eat_of_ahead hahead), if_pos rfl, Target.reference?]
  refine Reads.bind (ih.index warnings hdigits hbetween hboundary hnumber (by omega)) ?_
  intro no
  rw [Action.bind_of_ok hskip]
  refine Reads.bind (ih.subscripts warnings no hindices hgap hblank hbracket hopen (by omega)) ?_
  intro values
  exact Reads.pure rfl _ _

/-- A variable or an array element is read with one more call. -/
theorem ReadsWithin.target_succ (ih : ReadsWithin scope calls) {target : Target}
    {text gap rest : Bytes} (h : target.Written scope.aliases text) (hgap : Blank gap)
    (hboundary : Boundary target.endsInName target.endsInElement gap rest)
    (hahead : scope.script.ahead pos = text ++ gap ++ rest)
    (hcalls : 4 * text.length ≤ calls + 1) :
    Reads (scope.intRefWithin (calls + 1) ⟨pos, warnings⟩)
      (target.reference? scope.store scope.aliases)
      (pos + text.length + if target.endsInElement then gap.length else 0) warnings := by
  cases target with
  | slot number =>
    obtain ⟨digits, rfl, hdigits⟩ := h
    have hstop : pos + (Byte.percent :: digits).length = pos + 1 + digits.length := by
      simp only [List.length_cons]
      omega
    simp only [List.length_cons] at hcalls
    rw [hstop]
    exact ih.slot_succ hdigits hgap hboundary (by simpa using hahead) (by omega)
  | element number subscripts =>
    obtain ⟨digits, between, indices, rfl, hplain, hdigits, hbetween, hindices⟩ := h
    have hstop : pos + (Byte.question :: digits ++ between ++ indices).length + gap.length =
        pos + 1 + digits.length + between.length + indices.length + gap.length := by
      simp only [List.length_append, List.length_cons]
      omega
    simp only [List.length_append, List.length_cons] at hcalls
    rw [Target.endsInElement, if_pos rfl, hstop]
    exact ih.element_succ hplain hdigits hbetween hindices hgap hboundary.notBlank
      (hboundary.notBracket rfl) (by simpa using hahead) (by omega)

/-- Indices are read with one more call. -/
theorem ReadsWithin.subscripts_succ (ih : ReadsWithin scope calls) {subscripts : Subscripts}
    {text gap rest : Bytes} (no : Int32) (h : subscripts.Written scope.aliases text)
    (hgap : Blank gap) (hrest : NotBlank rest)
    (hbracket : ∀ b ∈ rest.head?, b ≠ Byte.leftBracket)
    (hahead : scope.script.ahead pos = text ++ gap ++ rest)
    (hcalls : 4 * text.length ≤ calls + 1) :
    Reads (scope.subscripts (calls + 1) no ⟨pos, warnings⟩)
      (subscripts.values? scope.store scope.aliases)
      (pos + text.length + gap.length) warnings := by
  rw [Scope.subscripts]
  cases subscripts with
  | last index =>
    obtain ⟨left, body, right, rfl, hleft, hindex, hright⟩ := h
    have hopen : scope.script.ahead pos = Byte.leftBracket ::
        (left ++ body ++ right ++ (Byte.rightBracket :: (gap ++ rest))) := by
      simpa using hahead
    have hinside := Script.ahead_succ hopen
    have hafter := Script.ahead_succ (Script.ahead_add_length hinside)
    have hlength : 4 * (body.length + right.length) + 2 ≤ calls := by
      simp only [List.length_append, List.length_cons, List.length_nil] at hcalls
      omega
    rw [Action.bind_of_ok (eat_of_ahead hopen), if_pos rfl, Subscripts.values?]
    refine ih.enclosed (.inr rfl) hindex hleft hright hinside hlength ?_
    intro value
    rw [Action.bind_of_ok (skipBlanks_of_ahead hafter hgap hrest),
      Action.bind_of_ok (subscripts_of_not_bracket calls no
        (by rwa [Script.ahead_add_length hafter]))]
    refine Reads.pure ?_ _ _
    simp only [List.length_append, List.length_cons, List.length_nil]
    omega
  | more index further =>
    obtain ⟨left, body, right, between, text, rfl, hleft, hindex, hright, hbetween, htext⟩ := h
    have hopen : scope.script.ahead pos = Byte.leftBracket ::
        (left ++ body ++ right ++ (Byte.rightBracket :: (between ++ (text ++ gap ++ rest)))) := by
      simpa using hahead
    have hinside := Script.ahead_succ hopen
    have hafter := Script.ahead_succ (Script.ahead_add_length hinside)
    have hlength : 4 * (body.length + right.length) + 2 ≤ calls := by
      simp only [List.length_append, List.length_cons, List.length_nil] at hcalls
      omega
    have hlength' : 4 * text.length ≤ calls := by
      simp only [List.length_append, List.length_cons, List.length_nil] at hcalls
      omega
    have hblank : NotBlank (text ++ gap ++ rest) := by
      obtain ⟨tail, rfl⟩ := Subscripts.opens htext
      exact .cons (by decide)
    rw [Action.bind_of_ok (eat_of_ahead hopen), if_pos rfl, Subscripts.values?]
    refine ih.enclosed (.inr rfl) hindex hleft hright hinside hlength ?_
    intro value
    rw [Action.bind_of_ok (skipBlanks_of_ahead hafter hbetween hblank)]
    refine Reads.bind (ih.subscripts warnings no htext hgap hrest hbracket
      (Script.ahead_add_length hafter) hlength') ?_
    intro values
    refine Reads.pure ?_ _ _
    simp only [List.length_append, List.length_cons, List.length_nil]
    omega

/-- A link of a chain is read with one more call. -/
theorem ReadsWithin.link_succ (ih : ReadsWithin scope calls) {op : Operator} {factor : Factor}
    {symbol gap text gap' rest : Bytes} (hsymbol : op.Written symbol) (hgap : Blank gap)
    (h : factor.Written scope.aliases text) (hgap' : Blank gap')
    (hapart : op = .mod → factor.isName = true → gap ≠ [])
    (hboundary : Boundary factor.endsInName factor.endsInElement gap' rest)
    (hahead : scope.script.ahead pos = symbol ++ gap ++ text ++ gap' ++ rest)
    (hcalls : 4 * text.length + 2 ≤ calls + 1) :
    Reads (scope.operation? (calls + 1) ⟨pos, warnings⟩)
      ((factor.value? scope.store scope.aliases).map fun value => some (op, value))
      (pos + symbol.length + gap.length + text.length + gap'.length) warnings := by
  have hahead' : scope.script.ahead pos = symbol ++ (gap ++ (text ++ gap' ++ rest)) := by
    simpa only [List.append_assoc] using hahead
  have hafter := Script.ahead_add_length hahead'
  obtain ⟨first, text', htext, hopens⟩ := Factor.opens h
  have hstart : op = .mod → ∃ b ∈ (gap ++ (text ++ gap' ++ rest)).head?, (Byte.isBlank b ||
      Byte.isSigil b || b == Byte.leftParen || Byte.isDigit b) = true := by
    intro hmod
    cases gap with
    | cons b gap => exact ⟨b, rfl, by simp [hgap b (by simp)]⟩
    | nil =>
      have hname : factor.isName = false := by
        by_contra hname
        exact hapart hmod (by simpa using hname) rfl
      refine ⟨first, by simp [htext], ?_⟩
      rw [hname] at hopens
      rcases hopens with hdigit | rfl | rfl | rfl
      · simp [hdigit]
      · rfl
      · rfl
      · rfl
  have hblank : NotBlank (text ++ gap' ++ rest) := by
    rw [htext]
    exact .cons hopens.plain.1
  have hblank' : NotBlank (scope.script.ahead pos) := by
    obtain ⟨b, rest', rfl, hb, -⟩ := symbol_opens hsymbol
    exact notBlank_of_cons hahead' hb
  rw [Scope.operation?, Action.bind_of_ok (skipBlanks_of_notBlank hblank'),
    Action.bind_of_ok (show position _ = .ok pos _ from rfl),
    operatorAt?_of_written hsymbol hahead' hstart]
  simp only
  rw [Action.bind_of_ok (show moveTo _ _ = .ok () ⟨pos + symbol.length, warnings⟩ from rfl),
    Action.bind_of_ok (skipBlanks_of_ahead hafter hgap hblank), Option.map_eq_bind]
  refine Reads.bind_map (ih.factor warnings h hgap' hboundary (Script.ahead_add_length hafter)
    (by omega)) ?_
  intro value
  exact Reads.pure rfl _ _

/-- An operation is read where a chain goes on, and none where the expression stops. What is in
view before and after it has the same value together with the links that are left. -/
theorem ReadsWithin.operation (ih : ReadsWithin scope calls) {inName inName' : Bool}
    {before before' : Bytes} {links : List Link} {text rest : Bytes}
    {f : Option (Operator × Int32) → Reader Int32} {view : View}
    (h : Tail scope.aliases inName before links text inName' before') (hrest : Stops before' rest)
    (hahead : scope.script.ahead pos = text ++ rest) (hcalls : 4 * text.length ≤ calls)
    (hnone : Reads (f none ⟨pos, warnings⟩) view.value? pos warnings)
    (hsome : ∀ {inName gap links more middle} op value,
      Tail scope.aliases inName gap links more inName' before' →
      scope.script.ahead middle = more ++ rest → 4 * more.length + 1 ≤ calls →
      Reads (f (some (op, value)) ⟨middle, warnings⟩)
        ((view.push? op value).bind fun view =>
          (view.run? scope.store scope.aliases links).bind View.value?)
        (middle + more.length) warnings) :
    Reads ((scope.operation? calls >>= f) ⟨pos, warnings⟩)
      ((view.run? scope.store scope.aliases links).bind View.value?)
      (pos + text.length) warnings := by
  cases h with
  | nil =>
    have hstops : Stops before (scope.script.ahead pos) := by rwa [hahead]
    rw [Action.bind_of_ok (operation?_of_stops calls hstops)]
    exact hnone
  | @cons _ _ _ _ op factor links symbol gap text gap' more hsymbol hgap htext hgap' _ hapart' htail =>
    have hahead' : scope.script.ahead pos = symbol ++ gap ++ text ++ gap' ++ (more ++ rest) := by
      simpa only [List.append_assoc] using hahead
    have hlength : 4 * text.length + 2 ≤ calls ∧ 4 * more.length + 1 ≤ calls := by
      obtain ⟨b, symbol, rfl, -⟩ := symbol_opens hsymbol
      simp only [List.length_append, List.length_cons] at hcalls
      omega
    have hmore : scope.script.ahead
        (pos + symbol.length + gap.length + text.length + gap'.length) = more ++ rest := by
      have := Script.ahead_add_length hahead'
      simpa only [List.length_append, ← Nat.add_assoc] using this
    have hstop : pos + (symbol ++ gap ++ text ++ gap' ++ more).length =
        pos + symbol.length + gap.length + text.length + gap'.length + more.length := by
      simp only [List.length_append]
      omega
    simp only [hstop, View.run?, Option.bind_eq_bind, Option.bind_assoc]
    refine Reads.bind_map (ih.link warnings hsymbol hgap htext hgap' hapart'
      (htail.boundary _ hgap' hrest) hahead' hlength.1) ?_
    intro value
    exact hsome op value htail hmore hlength.2

/-- The links of a chain are read with one more call. -/
theorem ReadsWithin.tail_succ (ih : ReadsWithin scope calls) {inName inName' : Bool}
    {gap gap' : Bytes} {links : List Link} {text rest : Bytes} (lhs : Int32) (op : Operator)
    (rhs : Int32) (h : Tail scope.aliases inName gap links text inName' gap')
    (hrest : Stops gap' rest)
    (hahead : scope.script.ahead pos = text ++ rest) (hcalls : 4 * text.length + 1 ≤ calls + 1) :
    Reads (scope.continuation (calls + 1) lhs op rhs ⟨pos, warnings⟩)
      (((View.two lhs op rhs).run? scope.store scope.aliases links).bind View.value?)
      (pos + text.length) warnings := by
  rw [Scope.continuation]
  refine ih.operation h hrest hahead (by omega) ?_ ?_
  · simpa only [View.value?, Operator.apply_toOption] using
      Reads.ofExcept (op.apply lhs rhs) pos warnings
  · intro _ _ links more middle next third htail hmore hlength
    simp only [View.push?, ← Operator.apply_toOption]
    split
    · rw [Option.bind_map]
      refine Reads.bind (Reads.ofExcept _ _ _) ?_
      intro folded
      exact ih.tail warnings lhs op folded htail hrest hmore hlength
    · rw [Option.bind_map]
      refine Reads.bind (Reads.ofExcept _ _ _) ?_
      intro folded
      exact ih.tail warnings folded next third htail hrest hmore hlength

/-- The sign in front of an expression is read together with the blanks around it. -/
theorem sign_of_ahead {negative : Bool} {gap sign between rest : Bytes} (hgap : Blank gap)
    (hsign : if negative then sign = [Byte.minus] ∧ Blank between else sign = [] ∧ between = [])
    (hrest : ∀ b ∈ rest.head?, Byte.isBlank b = false ∧ b ≠ Byte.minus)
    (hahead : scope.script.ahead pos = gap ++ (sign ++ between ++ rest)) (f : Bool → Reader α) :
    (do
        scope.skipBlanks
        let negative ← scope.eat Byte.minus
        scope.skipBlanks
        f negative : Reader α) ⟨pos, warnings⟩ =
      f negative ⟨pos + gap.length + sign.length + between.length, warnings⟩ := by
  have hblank : NotBlank rest := fun b hb => (hrest b hb).1
  cases negative with
  | true =>
    obtain ⟨rfl, hbetween⟩ := hsign
    have hopen : scope.script.ahead (pos + gap.length) = Byte.minus :: (between ++ rest) :=
      Script.ahead_add_length hahead
    have hnext : NotBlank (Byte.minus :: (between ++ rest)) := by
      rw [← hopen]
      exact notBlank_of_cons hopen (by decide)
    rw [Action.bind_of_ok (skipBlanks_of_ahead hahead hgap hnext),
      Action.bind_of_ok (eat_of_ahead hopen),
      Action.bind_of_ok (skipBlanks_of_ahead (Script.ahead_succ hopen) hbetween hblank)]
    rfl
  | false =>
    obtain ⟨rfl, rfl⟩ := hsign
    have hopen : scope.script.ahead (pos + gap.length) = rest := Script.ahead_add_length hahead
    have hminus : (scope.script.ahead (pos + gap.length)).head? ≠ some Byte.minus := by
      rw [hopen]
      exact fun hhead => (hrest _ hhead).2 rfl
    rw [Action.bind_of_ok (skipBlanks_of_ahead hahead hgap hblank),
      Action.bind_of_ok (eat_of_not_ahead hminus),
      Action.bind_of_ok (skipBlanks_of_notBlank (by rwa [hopen]))]
    rfl

/-- An expression is read with one more call. -/
theorem ReadsWithin.expression_succ (ih : ReadsWithin scope calls) {tree : Tree}
    {gap text gap' rest : Bytes} (h : tree.Written scope.aliases text) (hgap : Blank gap)
    (hgap' : Blank gap') (hrest : Stops gap' rest)
    (hahead : scope.script.ahead pos = gap ++ text ++ gap' ++ rest)
    (hcalls : 4 * (text.length + gap'.length) + 2 ≤ calls + 1) :
    Reads (scope.expression (calls + 1) ⟨pos, warnings⟩)
      (tree.value? scope.store scope.aliases)
      (pos + gap.length + text.length + gap'.length) warnings := by
  obtain ⟨negative, body⟩ := tree
  obtain ⟨sign, between, inner, rfl, hsign, hbody⟩ := h
  obtain ⟨head, after, tail, hchain, hhead, hafter, htail⟩ := Sum.chained hbody hgap'
  have hahead' : scope.script.ahead pos =
      gap ++ (sign ++ between ++ (head ++ after ++ (tail ++ rest))) := by
    have : gap ++ (sign ++ between ++ (inner ++ gap' ++ rest)) =
        gap ++ (sign ++ between ++ (head ++ after ++ tail ++ rest)) := by rw [hchain]
    simpa only [List.append_assoc] using hahead.trans (by simpa only [List.append_assoc] using this)
  have hopens : ∀ b ∈ (head ++ after ++ (tail ++ rest)).head?,
      Byte.isBlank b = false ∧ b ≠ Byte.minus := by
    obtain ⟨first, head, rfl, hfirst⟩ := Factor.opens hhead
    intro b hb
    obtain rfl : first = b := by simpa using hb
    exact hfirst.plain
  have hstart : scope.script.ahead (pos + gap.length + sign.length + between.length) =
      head ++ after ++ (tail ++ rest) := by
    have := Script.ahead_add_length (Script.ahead_add_length hahead')
    simpa only [List.length_append, ← Nat.add_assoc] using this
  have htailAhead : scope.script.ahead (pos + gap.length + sign.length + between.length +
      head.length + after.length) = tail ++ rest := by
    have := Script.ahead_add_length hstart
    simpa only [List.length_append, ← Nat.add_assoc] using this
  have hlength : inner.length + gap'.length = head.length + after.length + tail.length := by
    have := congrArg List.length hchain
    simpa only [List.length_append] using this
  have hstop : pos + gap.length + (sign ++ between ++ inner).length + gap'.length =
      pos + gap.length + sign.length + between.length + head.length + after.length +
        tail.length := by
    simp only [List.length_append]
    omega
  have hcalls' : 4 * (head.length + after.length + tail.length) + 1 ≤ calls := by
    simp only [List.length_append] at hcalls
    omega
  have hboundary := htail.boundary body.first.endsInElement hafter hrest
  rw [Scope.expression, sign_of_ahead hgap hsign hopens hahead', hstop, Tree.value?,
    ← Sum.value?_of_view?, Sum.view?, Option.bind_assoc]
  refine Reads.bind_map (ih.factor warnings hhead hafter hboundary hstart (by omega)) ?_
  intro value
  refine ih.operation htail hrest htailAhead (by omega) ?_ ?_
  · exact Reads.pure rfl _ _
  · intro _ _ links more middle op second htail' hmore hlength'
    exact ih.tail warnings _ op second htail' hrest hmore hlength'

/-- Every reader finds what was written, whatever the number of calls, if the text is short
enough for it. -/
theorem readsWithin (scope : Scope) (calls : Nat) : ReadsWithin scope calls := by
  induction calls with
  | zero =>
    constructor
    case target =>
      intro target text gap rest pos warnings h hgap hboundary hahead hcalls
      obtain ⟨b, text, rfl, -⟩ := Target.opens h
      simp at hcalls
    case subscripts =>
      intro subscripts text gap rest pos warnings no h hgap hrest hbracket hahead hcalls
      obtain ⟨text, rfl⟩ := Subscripts.opens h
      simp at hcalls
    all_goals
      intros
      omega
  | succ calls ih =>
    exact {
      expression := fun _ => ih.expression_succ
      tail := fun _ => ih.tail_succ
      link := fun _ => ih.link_succ
      factor := fun _ => ih.factor_succ
      target := fun _ => ih.target_succ
      index := fun _ => ih.index_succ
      subscripts := fun _ => ih.subscripts_succ }

/-- Reading an integer expression agrees with the ordinary rules. Wherever a tree is written in a
script and closed, the reader gives its value and stands on what closes it exactly if the tree has
that value, and it fails exactly if some part of the tree has none. -/
theorem int_agrees_with_tree (scope : Scope) (warnings : List Warning) {tree : Tree}
    {front gap text gap' rest : Bytes}
    (hscript : scope.script.bytes.toList = front ++ gap ++ text ++ gap' ++ rest)
    (hwritten : tree.Written scope.aliases text) (hgap : Blank gap) (hgap' : Blank gap')
    (hrest : Closes rest) :
    (∀ value, scope.int.run ⟨front.length, warnings⟩ =
        .ok value ⟨(front ++ gap ++ text ++ gap').length, warnings⟩ ↔
      tree.value? scope.store scope.aliases = some value) ∧
    ((∃ fault cursor, scope.int.run ⟨front.length, warnings⟩ = .error fault cursor) ↔
      tree.value? scope.store scope.aliases = none) := by
  have hahead : scope.script.ahead front.length = gap ++ text ++ gap' ++ rest := by
    simp only [Script.ahead, hscript, List.append_assoc, List.drop_left]
  have hsize : gap.length + text.length + gap'.length ≤ scope.script.size - front.length := by
    have hlength := congrArg List.length hahead
    rw [Script.length_ahead] at hlength
    simp only [List.length_append] at hlength
    omega
  have hcalls : 4 * (text.length + gap'.length) + 2 ≤ scope.callBound front.length := by
    unfold Scope.callBound
    omega
  have hstop : front.length + gap.length + text.length + gap'.length =
      (front ++ gap ++ text ++ gap').length := by
    simp only [List.length_append]
  have hreads : Reads (scope.int.run ⟨front.length, warnings⟩)
      (tree.value? scope.store scope.aliases) (front ++ gap ++ text ++ gap').length warnings := by
    rw [← hstop]
    exact (readsWithin scope _).tree warnings hwritten hgap hgap' hrest hahead hcalls
  cases hvalue : tree.value? scope.store scope.aliases with
  | none =>
    rw [hvalue] at hreads
    obtain ⟨fault, cursor, herror⟩ := hreads
    simp [herror]
  | some value =>
    rw [hvalue] at hreads
    have hok : scope.int.run ⟨front.length, warnings⟩ =
        .ok value ⟨(front ++ gap ++ text ++ gap').length, warnings⟩ := hreads
    simp [hok]

/-- The expression `-2 +%%1*(x mod 4)`. -/
def sampleTree : Tree :=
  .signed true (.join (.single (.single (.constant (.literal 2)))) ⟨.add, rfl⟩
    (.join (.single (.read (.slot (.read (.slot (.constant (.literal 1))))))) ⟨.mul, rfl⟩
      (.group (.signed false (.single (.join (.single (.constant (.named "x"))) ⟨.mod, rfl⟩
        (.constant (.literal 4))))))))

/-- A statement with that expression, where `%1` is 2, `%2` is 9 and `x` is 7. -/
def sampleScope : Scope where
  script := ⟨(Bytes.ofText "mov %0, -2 +%%1*(x mod 4) ,7").toArray, .utf8⟩
  narrow := false
  store := ((Store.blank 3 0).setInt 1 2).setInt 2 9
  aliases := { numbers := [("x", 7)] }

/-- A space is blank. -/
theorem Blank.space : Blank [Byte.space] := by
  simp [Blank, Byte.isBlank]

/-- The sample is a written form of its tree. -/
theorem sampleTree_written :
    sampleTree.Written sampleScope.aliases (Bytes.ofText "-2 +%%1*(x mod 4)") := by
  have htwo : Numeral 2 [0x32] := .decimal (by decide) rfl rfl
  have hone : Numeral 1 [0x31] := .decimal (by decide) rfl rfl
  have hfour : Numeral 4 [0x34] := .decimal (by decide) rfl rfl
  have hx : (Constant.named "x").Written sampleScope.aliases [0x78] :=
    ⟨⟨0x78, [], rfl, rfl, by simp⟩, by decide +kernel, by decide +kernel⟩
  have hmod : Joint (.constant (.named "x")) .mod (.constant (.literal 4))
      ([0x20] ++ [0x6d, 0x6f, 0x64] ++ [0x20]) :=
    .mk Blank.space rfl Blank.space (by simp) (by simp)
  refine ⟨[0x2d], [], [0x32, 0x20, 0x2b, 0x25, 0x25, 0x31, 0x2a, 0x28, 0x78, 0x20, 0x6d, 0x6f,
    0x64, 0x20, 0x34, 0x29], by decide +kernel, ⟨rfl, Blank.nil⟩, ?_⟩
  refine ⟨[0x32], [0x20] ++ [0x2b] ++ [], _, rfl, htwo,
    .mk Blank.space rfl Blank.nil (by simp) (by simp), ?_⟩
  refine ⟨[0x25, 0x25, 0x31], [] ++ [0x2a] ++ [], _, rfl, ⟨_, rfl, _, rfl, hone⟩,
    .mk Blank.nil rfl Blank.nil (by simp) (by simp), ?_⟩
  refine ⟨[], [0x78, 0x20, 0x6d, 0x6f, 0x64, 0x20, 0x34], [], rfl, Blank.nil, ?_, Blank.nil⟩
  exact ⟨[], [], _, rfl, ⟨rfl, rfl⟩, [0x78], _, [0x34], rfl, hx, hmod, hfour⟩

/-- In the sample the reader finds -2 + 9 * (7 mod 4), and stands on the comma. -/
theorem int_agrees_with_sampleTree :
    sampleTree.Written sampleScope.aliases (Bytes.ofText "-2 +%%1*(x mod 4)") ∧
      sampleScope.int.run ⟨7, []⟩ = .ok 25 ⟨26, []⟩ :=
  have hscript : sampleScope.script.bytes.toList = Bytes.ofText "mov %0," ++ [Byte.space] ++
      Bytes.ofText "-2 +%%1*(x mod 4)" ++ [Byte.space] ++ [0x2c, 0x37] := by decide +kernel
  ⟨sampleTree_written,
    ((int_agrees_with_tree sampleScope [] hscript sampleTree_written Blank.space Blank.space
      (by simp [Closes, Byte.comma])).1 25).mpr (by decide +kernel)⟩

end NovelScript.Expression
