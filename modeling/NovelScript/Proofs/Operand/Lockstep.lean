import NovelScript.Proofs.Operand.Bounds
import NovelScript.Proofs.Script.SameText

/-!
# Operands that are written alike are read alike

The readers of expressions and of references look at nothing but bytes that an expression may hold.
So where the same text stands at two places, they go through it in step: they give the same, or fail
for the same reason, and come to the same byte of the text. The readers call each other, so that
this is one induction on the bound on the calls of the first run. The second run has a bound of its
own, since there may be more or less of the script behind the text.
-/

namespace NovelScript.Operand

open NovelScript.Action (Paired)
open NovelScript.Script (SameText)

/-! ## Two readers in step -/

/-- Two readers have come to the same byte of the `n` bytes from `x` and from `y` on, not before the
byte `i`, and have given the same warnings. -/
def Level (x y n i : Nat) (c d : Cursor) : Prop :=
  ∃ j, i ≤ j ∧ j ≤ n ∧ c.pos = x + j ∧ d.pos = y + j ∧ d.warnings = c.warnings

/-- Started at the same byte, not before the byte `i`, the readers give the same and come to the
same byte, not before that which `k` tells, or fail for the same reason. -/
def InStep (x y n i : Nat) {α : Type} (k : α → Nat) (r r' : Reader α) : Prop :=
  ∀ c d, Level x y n i c d →
    Paired (fun a c' b d' => b = a ∧ Level x y n (k a) c' d') (r c) (r' d)

variable {x y n i : Nat} {α β : Type} {k : α → Nat} {l : β → Nat} {r r' : Reader α}

/-- Readers that have come to the same byte are not before an earlier one either. -/
theorem Level.weaken {i' : Nat} {c d : Cursor} (h : Level x y n i c d) (hi : i' ≤ i) :
    Level x y n i' c d := by
  obtain ⟨j, hij, hjn, hlevel⟩ := h
  exact ⟨j, Nat.le_trans hi hij, hjn, hlevel⟩

/-- The text is long enough for the byte that was come to. -/
theorem Level.le {c d : Cursor} (h : Level x y n i c d) : i ≤ n := by
  obtain ⟨j, hij, hjn, -⟩ := h
  exact Nat.le_trans hij hjn

namespace InStep

/-- There is a byte to start at. -/
theorem of_le (h : i ≤ n → InStep x y n i k r r') : InStep x y n i k r r' :=
  fun c d hlevel => h hlevel.le c d hlevel

/-- Less may be said of where the readers have come to. -/
theorem keep {m : Nat} (h : InStep x y n i k r r') (hk : ∀ a, m ≤ k a) :
    InStep x y n i (fun _ => m) r r' :=
  fun c d hlevel => (h c d hlevel).imp fun a _ _ _ hab => ⟨hab.1, hab.2.weaken (hk a)⟩

/-- Both readers give the same at once. -/
protected theorem pure (a : α) (h : k a ≤ i) : InStep x y n i k (pure a) (pure a) :=
  fun _ _ hlevel => .ok ⟨rfl, hlevel.weaken h⟩

/-- Both fail for the same reason. -/
protected theorem throw (fault : Fault) : InStep x y n i k (throw fault) (throw fault) :=
  fun c d _ => .error fault c d

/-- The second readers go on from where the first ones have come to. -/
protected theorem bind {f f' : α → Reader β} (h : InStep x y n i k r r')
    (hf : ∀ a, InStep x y n (k a) l (f a) (f' a)) : InStep x y n i l (r >>= f) (r' >>= f') := by
  intro c d hlevel
  refine (h c d hlevel).bind fun a c' b d' hab => ?_
  rw [hab.1]
  exact hf a c' d' hab.2

/-- The same computation may stand in front of both. -/
theorem ofExcept_bind {op : Except Fault α} {f f' : α → Reader β}
    (hf : ∀ a, InStep x y n i l (f a) (f' a)) :
    InStep x y n i l (Action.ofExcept op >>= f) (Action.ofExcept op >>= f') :=
  fun c d hlevel => Paired.ofExcept_bind fun a _ => hf a c d hlevel

/-- A failure leads nowhere. -/
theorem fail (fault : Fault) {f f' : α → Reader β} :
    InStep x y n i l (throw fault >>= f) (throw fault >>= f') :=
  fun c d _ => .error fault c d

/-- The same computation gives the same in both. -/
protected theorem ofExcept (op : Except Fault α) :
    InStep x y n i (fun _ => i) (Action.ofExcept op) (Action.ofExcept op) := by
  intro c d hlevel
  cases op with
  | ok a => exact .ok ⟨rfl, hlevel⟩
  | error fault => exact .error fault c d

/-- Both readers take the same of two ways. -/
protected theorem ite {p : Prop} [Decidable p] {q q' : Reader α} (h : p → InStep x y n i k r r')
    (hnot : ¬ p → InStep x y n i k q q') :
    InStep x y n i k (if p then r else q) (if p then r' else q') := by
  split
  · next hp => exact h hp
  · next hp => exact hnot hp

/-- Looking at the position. -/
protected theorem position {f f' : Nat → Reader α}
    (h : ∀ j, i ≤ j → j ≤ n → InStep x y n j k (f (x + j)) (f' (y + j))) :
    InStep x y n i k (position >>= f) (position >>= f') := by
  rintro c d ⟨j, hij, hjn, hc, hd, hwarnings⟩
  have hstep := h j hij hjn c d ⟨j, Nat.le_refl j, hjn, hc, hd, hwarnings⟩
  rwa [← hc, ← hd] at hstep

/-- Both readers go on at the same byte of the text. -/
protected theorem moveTo {i' j : Nat} (hj : i' ≤ j) (hjn : j ≤ n) :
    InStep x y n i (fun _ => i') (moveTo (x + j)) (moveTo (y + j)) := by
  rintro c d ⟨-, -, -, -, -, hwarnings⟩
  exact .ok ⟨rfl, j, hj, hjn, rfl, rfl, hwarnings⟩

/-- Both give the same warning. -/
protected theorem warn (warning : Warning) :
    InStep x y n i (fun _ => i) (warn warning) (warn warning) := by
  rintro c d ⟨j, hij, hjn, hc, hd, hwarnings⟩
  exact .ok ⟨rfl, j, hij, hjn, hc, hd, congrArg (· ++ [warning]) hwarnings⟩

end InStep

namespace Scope

/-- The same text is read with the same variables and constants. -/
structure Alike (a b : Scope) (x y n : Nat) : Prop where
  /-- The text. -/
  text : SameText a.script b.script x y n
  /-- The variables. -/
  store : b.store = a.store
  /-- The constants. -/
  aliases : b.aliases = a.aliases

namespace Alike

variable {a b : Scope} (h : a.Alike b x y n)
include h

/-- Blanks are passed over in step. -/
theorem skipBlanks : InStep x y n i (fun _ => i) a.skipBlanks b.skipBlanks := by
  refine .position fun j hij hjn => ?_
  obtain ⟨m, hjm, hmn, ha, hb⟩ := h.text.skipBlanks hjn
  rw [ha, hb]
  exact .moveTo (Nat.le_trans hij hjm) hmn

/-- A byte that is passed over counts. -/
theorem eat {byte : UInt8} (hbyte : Byte.inExpression byte = true) :
    InStep x y n i (fun eaten => if eaten then i + 1 else i) (a.eat byte) (b.eat byte) := by
  refine .position fun j hij hjn => ?_
  obtain ⟨hsame, hlt⟩ := h.text.isAt hbyte hjn
  rw [hsame]
  refine .ite (fun hat => ?_) fun _ => .pure _ hij
  exact .bind (.moveTo (Nat.le_refl _) (hlt hat)) fun _ => .pure _ (Nat.succ_le_succ hij)

private theorem eat_keep {byte : UInt8} (hbyte : Byte.inExpression byte = true) :
    InStep x y n i (fun _ => i) (a.eat byte) (b.eat byte) := by
  refine (h.eat hbyte).keep fun eaten => ?_
  cases eaten with
  | false => exact Nat.le_refl i
  | true => exact Nat.le_succ i

private theorem number? : InStep x y n i (fun _ => i) a.number? b.number? := by
  refine .position fun j hij hjn => ?_
  have hhex : ∀ mark : UInt8, Byte.inExpression mark = true →
      b.script.startsWith [0x30, mark] (y + j) = a.script.startsWith [0x30, mark] (x + j) ∧
        (a.script.startsWith [0x30, mark] (x + j) = true → j + 2 ≤ n) := by
    intro mark hmark
    refine h.text.startsWith (fun b hb => ?_) hjn
    rcases List.mem_cons.mp hb with rfl | hb
    · decide
    · exact List.mem_singleton.mp hb ▸ hmark
  obtain ⟨hx, hxle⟩ := hhex 0x78 (by decide)
  obtain ⟨hX, hXle⟩ := hhex 0x58 (by decide)
  have hdigit := (h.text.holdsAt (fun _ => Byte.inExpression_of_isDigit) hjn).1
  simp only [hx, hX, hdigit, h.aliases]
  refine .ite (fun hmark => ?_) fun _ => .ite (fun _ => ?_) fun _ => ?_
  · have hle : j + 2 ≤ n := (Bool.or_eq_true_iff.mp hmark).elim hxle hXle
    obtain ⟨m, hjm, hmn, ha, hb⟩ := h.text.advanceWhile (fun c hc =>
      Byte.inExpression_of_isNameByte (Byte.isNameByte_of_hexDigit? hc)) hle
    rw [Nat.add_assoc x, Nat.add_assoc y, ha, hb, h.text.slice hjm hmn]
    exact .bind (.moveTo (Nat.le_refl m) hmn) fun _ => .pure _ (by omega)
  · obtain ⟨m, hjm, hmn, ha, hb⟩ :=
      h.text.advanceWhile (fun _ => Byte.inExpression_of_isDigit) hjn
    rw [ha, hb, h.text.slice hjm hmn]
    exact .bind (.moveTo (Nat.le_refl m) hmn) fun _ => .pure _ (by omega)
  · obtain ⟨ha, hb⟩ | ⟨name, m, hjm, hmn, ha, hb⟩ := h.text.name? hjn
    · rw [ha, hb]
      exact .pure _ hij
    · have him : i ≤ m := Nat.le_trans hij hjm
      rw [ha, hb]
      dsimp only
      split
      · exact .bind (.moveTo him hmn) fun _ => .pure _ (Nat.le_refl i)
      · refine .ite (fun _ => .pure _ hij) fun _ => .bind (.moveTo him hmn) fun _ => ?_
        exact .bind (.warn _) fun _ => .pure _ (Nat.le_refl i)

private theorem isModAt {j : Nat} (hj : j ≤ n) :
    b.isModAt (y + j) = a.isModAt (x + j) ∧ (a.isModAt (x + j) = true → j + 3 ≤ n) := by
  have hletters : ∀ c ∈ ([0x6d, 0x6f, 0x64] : Bytes), Byte.isNameByte c = true :=
    List.all_eq_true.mp (by decide)
  obtain ⟨hword, hle⟩ := h.text.startsWithWord hletters hj
  have hterm : ∀ c, (Byte.isBlank c || Byte.isSigil c || c == Byte.leftParen || Byte.isDigit c) =
      true → Byte.inExpression c = true := by
    intro c hc
    simp only [Bool.or_eq_true, beq_iff_eq] at hc
    rcases hc with ((hblank | hsigil) | rfl) | hdigit
    · exact Byte.inExpression_of_isBlank hblank
    · exact Byte.inExpression_of_isSigil hsigil
    · decide
    · exact Byte.inExpression_of_isDigit hdigit
  rw [Scope.isModAt, Scope.isModAt, hword]
  cases hat : a.script.startsWithWord [0x6d, 0x6f, 0x64] (x + j) with
  | false => exact ⟨rfl, fun hfalse => absurd hfalse (by simp)⟩
  | true =>
    have hle' : j + 3 ≤ n := hle hat
    rw [Nat.add_assoc, Nat.add_assoc, (h.text.holdsAt hterm hle').1]
    exact ⟨rfl, fun _ => hle'⟩

/-- Where the text ends there is no operator. -/
theorem operatorAt?_stop : a.operatorAt? (x + n) = none ∧ b.operatorAt? (y + n) = none := by
  have hmod := h.isModAt (Nat.le_refl n)
  have hmod' : a.isModAt (x + n) = false := by
    rw [← Bool.not_eq_true]
    exact fun htrue => absurd (hmod.2 htrue) (by omega)
  have hnone : ∀ {c : Scope} {pos : Nat}, c.script.holdsAt pos Byte.inExpression = false →
      c.isModAt pos = false → c.operatorAt? pos = none := by
    intro c pos hstop hmod
    rw [Scope.operatorAt?]
    rw [Script.holdsAt] at hstop
    cases hbyte : c.script.byte? pos with
    | none => rfl
    | some byte =>
      rw [hbyte, Option.any_some] at hstop
      have hne : ∀ sign, Byte.inExpression sign = true → (byte == sign) = false := by
        intro sign hsign
        rw [beq_eq_false_iff_ne]
        rintro rfl
        rw [hsign] at hstop
        cases hstop
      dsimp only
      rw [hne _ (by decide), hne _ (by decide), hne _ (by decide), hne _ (by decide), hmod]
      rfl
  exact ⟨hnone h.text.left hmod', hnone h.text.right (hmod.1.trans hmod')⟩

/-- The same operator is found at both places, or none. -/
theorem operatorAt? {j : Nat} (hj : j ≤ n) :
    (a.operatorAt? (x + j) = none ∧ b.operatorAt? (y + j) = none) ∨
      ∃ op m, j < m ∧ m ≤ n ∧ a.operatorAt? (x + j) = some (op, x + m) ∧
        b.operatorAt? (y + j) = some (op, y + m) := by
  rcases Nat.lt_or_eq_of_le hj with hlt | rfl
  · obtain ⟨hmod, hle⟩ := h.isModAt hj
    rw [Scope.operatorAt?, Scope.operatorAt?, h.text.byte j hlt, hmod]
    cases a.script.byte? (x + j) with
    | none => exact .inl ⟨rfl, rfl⟩
    | some byte =>
      dsimp only
      split_ifs with hadd hsub hmul hdiv hmodAt
      · exact .inr ⟨.add, j + 1, by omega, hlt, rfl, rfl⟩
      · exact .inr ⟨.sub, j + 1, by omega, hlt, rfl, rfl⟩
      · exact .inr ⟨.mul, j + 1, by omega, hlt, rfl, rfl⟩
      · exact .inr ⟨.div, j + 1, by omega, hlt, rfl, rfl⟩
      · exact .inr ⟨.mod, j + 3, by omega, hle hmodAt, rfl, rfl⟩
      · exact .inl ⟨rfl, rfl⟩
  · exact .inl h.operatorAt?_stop

end Alike

/-! ## Expressions -/

/-- All readers of expressions go in step, if both may make enough calls for what is left of the
text from the byte that they start at. -/
structure ExpressionsInStep (a b : Scope) (x y n calls : Nat) : Prop where
  /-- Expressions do. -/
  expression : ∀ {i calls'}, 4 * (n - i) + 3 ≤ calls → 4 * (n - i) + 3 ≤ calls' →
    InStep x y n i (fun _ => i) (a.expression calls) (b.expression calls')
  /-- Rests of expressions do. -/
  continuation : ∀ {i calls'} lhs op rhs, 4 * (n - i) + 2 ≤ calls → 4 * (n - i) + 2 ≤ calls' →
    InStep x y n i (fun _ => i) (a.continuation calls lhs op rhs) (b.continuation calls' lhs op rhs)
  /-- Operators with their terms do. An operator takes a byte. -/
  operation? : ∀ {i calls'}, 4 * (n - i) + 1 ≤ calls → 4 * (n - i) + 1 ≤ calls' →
    InStep x y n i (fun found => if found.isSome then i + 1 else i) (a.operation? calls)
      (b.operation? calls')
  /-- Terms do. -/
  factor : ∀ {i calls'}, 4 * (n - i) + 2 ≤ calls → 4 * (n - i) + 2 ≤ calls' →
    InStep x y n i (fun _ => i) (a.factor calls) (b.factor calls')
  /-- References do. A reference takes a byte. -/
  intRefWithin : ∀ {i calls'}, 4 * (n - i) + 1 ≤ calls → 4 * (n - i) + 1 ≤ calls' →
    InStep x y n i (fun _ => i + 1) (a.intRefWithin calls) (b.intRefWithin calls')
  /-- Indices in brackets do. -/
  subscripts : ∀ {i calls'} no, 4 * (n - i) + 1 ≤ calls → 4 * (n - i) + 1 ≤ calls' →
    InStep x y n i (fun _ => i) (a.subscripts calls no) (b.subscripts calls' no)
  /-- Numbers after sigils do. -/
  indexTerm : ∀ {i calls'}, 4 * (n - i) + 2 ≤ calls → 4 * (n - i) + 2 ≤ calls' →
    InStep x y n i (fun _ => i) (a.indexTerm calls) (b.indexTerm calls')

namespace ExpressionsInStep

variable {a b : Scope} {calls calls' : Nat} (ih : a.ExpressionsInStep b x y n calls)
include ih

private theorem continuation_succ (lhs : Int32) (op : Operator) (rhs : Int32)
    (hcalls : 4 * (n - i) + 2 ≤ calls + 1) (hcalls' : 4 * (n - i) + 2 ≤ calls' + 1) :
    InStep x y n i (fun _ => i) (a.continuation (calls + 1) lhs op rhs)
      (b.continuation (calls' + 1) lhs op rhs) := by
  refine .bind (ih.operation? (by omega) (by omega)) fun found => .of_le fun hi => ?_
  cases found with
  | none => exact .ofExcept _
  | some found =>
    change InStep x y n (i + 1) (fun _ => i) _ _
    have hi' : i + 1 ≤ n := hi
    refine .ite (fun _ => ?_) fun _ => ?_
    · refine .ofExcept_bind fun folded => ?_
      exact (ih.continuation _ _ _ (by omega) (by omega)).keep fun _ => Nat.le_succ i
    · refine .ofExcept_bind fun folded => ?_
      exact (ih.continuation _ _ _ (by omega) (by omega)).keep fun _ => Nat.le_succ i

variable (h : a.Alike b x y n)
include h

private theorem expression_succ (hcalls : 4 * (n - i) + 3 ≤ calls + 1)
    (hcalls' : 4 * (n - i) + 3 ≤ calls' + 1) :
    InStep x y n i (fun _ => i) (a.expression (calls + 1)) (b.expression (calls' + 1)) := by
  refine .bind h.skipBlanks fun _ => .bind (h.eat_keep (by decide)) fun negative => ?_
  refine .bind h.skipBlanks fun _ => .bind (ih.factor (by omega) (by omega)) fun term => ?_
  refine .bind (ih.operation? (by omega) (by omega)) fun found => .of_le fun hi => ?_
  cases found with
  | none => exact .pure _ (Nat.le_refl i)
  | some found =>
    change InStep x y n (i + 1) (fun _ => i) _ _
    have hi' : i + 1 ≤ n := hi
    exact (ih.continuation _ found.1 found.2 (by omega) (by omega)).keep fun _ => Nat.le_succ i

private theorem operation?_succ (hcalls : 4 * (n - i) + 1 ≤ calls + 1)
    (hcalls' : 4 * (n - i) + 1 ≤ calls' + 1) :
    InStep x y n i (fun found => if found.isSome then i + 1 else i) (a.operation? (calls + 1))
      (b.operation? (calls' + 1)) := by
  refine .bind h.skipBlanks fun _ => .position fun j hij hjn => ?_
  obtain ⟨ha, hb⟩ | ⟨op, m, hjm, hmn, ha, hb⟩ := h.operatorAt? hjn
  · rw [ha, hb]
    exact .pure _ hij
  · rw [ha, hb]
    refine .bind (.moveTo (Nat.le_refl m) hmn) fun _ => .bind h.skipBlanks fun _ => ?_
    refine .bind (ih.factor (by omega) (by omega)) fun term => ?_
    cases term with
    | some value => exact .pure _ (show i + 1 ≤ m by omega)
    | none => exact .bind (.moveTo hij hjn) fun _ => .pure _ (Nat.le_refl i)

private theorem factor_succ (hcalls : 4 * (n - i) + 2 ≤ calls + 1)
    (hcalls' : 4 * (n - i) + 2 ≤ calls' + 1) :
    InStep x y n i (fun _ => i) (a.factor (calls + 1)) (b.factor (calls' + 1)) := by
  refine .bind (h.eat (by decide)) fun opened => .ite (fun hopened => ?_) fun hopened => ?_
  · rw [if_pos hopened]
    refine .of_le fun hi => .bind (ih.expression (by omega) (by omega)) fun value => ?_
    refine .bind h.skipBlanks fun _ => .bind (h.eat_keep (by decide)) fun closed => ?_
    refine .ite (fun _ => ?_) fun _ => .fail _
    exact .bind h.skipBlanks fun _ => .pure _ (Nat.le_succ i)
  · rw [if_neg hopened]
    refine .position fun j hij hjn => ?_
    rw [(h.text.isAt (by decide) hjn).1, (h.text.isAt (by decide) hjn).1, h.store]
    refine .ite (fun _ => ?_) fun _ => ?_
    · refine .bind (ih.intRefWithin (by omega) (by omega)) fun target => ?_
      exact .ofExcept_bind fun value => .bind h.skipBlanks fun _ => .pure _ (by omega)
    · exact .bind h.number? fun value => .bind h.skipBlanks fun _ => .pure _ hij

private theorem intRefWithin_succ (hcalls : 4 * (n - i) + 1 ≤ calls + 1)
    (hcalls' : 4 * (n - i) + 1 ≤ calls' + 1) :
    InStep x y n i (fun _ => i + 1) (a.intRefWithin (calls + 1)) (b.intRefWithin (calls' + 1)) := by
  refine .bind h.skipBlanks fun _ => .bind (h.eat (by decide)) fun isInt => ?_
  refine .ite (fun hint => ?_) fun hint => ?_
  · rw [if_pos hint]
    refine .of_le fun hi => .bind (ih.indexTerm (by omega) (by omega)) fun number => ?_
    exact .ofExcept_bind fun slot => .pure _ (Nat.le_refl _)
  · rw [if_neg hint]
    refine .bind (h.eat (by decide)) fun isArray => .ite (fun harray => ?_) fun _ => .throw _
    rw [if_pos harray]
    refine .of_le fun hi => .bind (ih.indexTerm (by omega) (by omega)) fun number => ?_
    refine .bind h.skipBlanks fun _ => .bind (ih.subscripts _ (by omega) (by omega)) fun _ => ?_
    exact .pure _ (Nat.le_refl _)

private theorem subscripts_succ (no : Int32) (hcalls : 4 * (n - i) + 1 ≤ calls + 1)
    (hcalls' : 4 * (n - i) + 1 ≤ calls' + 1) :
    InStep x y n i (fun _ => i) (a.subscripts (calls + 1) no) (b.subscripts (calls' + 1) no) := by
  refine .bind (h.eat (by decide)) fun opened => .ite (fun hopened => ?_) fun hopened => ?_
  · rw [if_pos hopened]
    refine .of_le fun hi => .bind (ih.expression (by omega) (by omega)) fun index => ?_
    refine .bind h.skipBlanks fun _ => .bind (h.eat_keep (by decide)) fun closed => ?_
    refine .ite (fun _ => ?_) fun _ => .fail _
    refine .bind h.skipBlanks fun _ => .bind (ih.subscripts _ (by omega) (by omega)) fun _ => ?_
    exact .pure _ (Nat.le_succ i)
  · rw [if_neg hopened]
    exact .pure _ (Nat.le_refl i)

private theorem indexTerm_succ (hcalls : 4 * (n - i) + 2 ≤ calls + 1)
    (hcalls' : 4 * (n - i) + 2 ≤ calls' + 1) :
    InStep x y n i (fun _ => i) (a.indexTerm (calls + 1)) (b.indexTerm (calls' + 1)) := by
  refine .position fun j hij hjn => ?_
  rw [(h.text.isAt (by decide) hjn).1, (h.text.isAt (by decide) hjn).1, h.store]
  refine .ite (fun _ => ?_) fun _ => ?_
  · refine .bind (ih.intRefWithin (by omega) (by omega)) fun target => ?_
    exact (InStep.ofExcept _).keep fun _ => by omega
  · exact .bind h.number? fun value => .pure _ hij

end ExpressionsInStep

namespace Alike

variable {a b : Scope} (h : a.Alike b x y n)
include h

private theorem expressionsInStep (calls : Nat) : a.ExpressionsInStep b x y n calls := by
  induction calls with
  | zero => constructor <;> intros <;> omega
  | succ calls ih =>
    have hpred : ∀ {m further}, m + 1 ≤ further → ∃ calls', further = calls' + 1 :=
      fun {m further} hle => ⟨further - 1, by omega⟩
    constructor
    case expression =>
      intro i calls' hcalls hcalls'
      obtain ⟨calls', rfl⟩ := hpred hcalls'
      exact ih.expression_succ h hcalls hcalls'
    case continuation =>
      intro i calls' lhs op rhs hcalls hcalls'
      obtain ⟨calls', rfl⟩ := hpred hcalls'
      exact ih.continuation_succ lhs op rhs hcalls hcalls'
    case operation? =>
      intro i calls' hcalls hcalls'
      obtain ⟨calls', rfl⟩ := hpred hcalls'
      exact ih.operation?_succ h hcalls hcalls'
    case factor =>
      intro i calls' hcalls hcalls'
      obtain ⟨calls', rfl⟩ := hpred hcalls'
      exact ih.factor_succ h hcalls hcalls'
    case intRefWithin =>
      intro i calls' hcalls hcalls'
      obtain ⟨calls', rfl⟩ := hpred hcalls'
      exact ih.intRefWithin_succ h hcalls hcalls'
    case subscripts =>
      intro i calls' no hcalls hcalls'
      obtain ⟨calls', rfl⟩ := hpred hcalls'
      exact ih.subscripts_succ h no hcalls hcalls'
    case indexTerm =>
      intro i calls' hcalls hcalls'
      obtain ⟨calls', rfl⟩ := hpred hcalls'
      exact ih.indexTerm_succ h hcalls hcalls'

/-! ## Operands -/

/-- The bound on the calls that readers start with is large enough for the text. -/
theorem le_callBound {j : Nat} :
    4 * (n - j) + 3 ≤ a.callBound (x + j) ∧ 4 * (n - j) + 3 ≤ b.callBound (y + j) := by
  have hleft := h.text.leftSize
  have hright := h.text.rightSize
  unfold Scope.callBound
  omega

/-- Integer expressions are read in step. -/
theorem int : InStep x y n i (fun _ => i) a.int b.int := by
  refine .position fun j hij hjn => ?_
  obtain ⟨hcalls, hcalls'⟩ := h.le_callBound (j := j)
  exact ((h.expressionsInStep _).expression hcalls hcalls').keep fun _ => hij

/-- So are the numbers after sigils. -/
theorem index : InStep x y n i (fun _ => i) a.index b.index := by
  refine .position fun j hij hjn => ?_
  obtain ⟨hcalls, hcalls'⟩ := h.le_callBound (j := j)
  exact ((h.expressionsInStep _).indexTerm (by omega) (by omega)).keep fun _ => hij

/-- A reference takes a byte. -/
theorem intRef : InStep x y n i (fun _ => i + 1) a.intRef b.intRef := by
  refine .position fun j hij hjn => ?_
  obtain ⟨hcalls, hcalls'⟩ := h.le_callBound (j := j)
  exact ((h.expressionsInStep _).intRefWithin (by omega) (by omega)).keep fun _ => by omega

/-- So does a reference to a variable of any kind. -/
theorem varRef : InStep x y n i (fun _ => i + 1) a.varRef b.varRef := by
  refine .bind h.skipBlanks fun _ => .bind (h.eat (by decide)) fun isStr => ?_
  refine .ite (fun hstr => ?_) fun hstr => ?_
  · rw [if_pos hstr]
    refine .bind h.index fun number => .bind h.skipBlanks fun _ => ?_
    exact .ofExcept_bind fun slot => .pure _ (Nat.le_refl _)
  · rw [if_neg hstr]
    exact .bind h.intRef fun target => .bind h.skipBlanks fun _ => .pure _ (Nat.le_refl _)

end Alike

end Scope

/-! ## The bound on the calls -/

/-- Both runs of a reader give the same and come to the same position, or fail for the same reason.
Where a reader has failed it does not matter how far it had come. -/
def Agree {α : Type} (first second : EStateM.Result Fault Cursor α) : Prop :=
  Paired (fun a c b d => b = a ∧ d = c) first second

/-- Readers that go in step through one and the same text agree. -/
theorem InStep.agree (h : InStep 0 0 n i k r r') {c : Cursor} (hi : i ≤ c.pos) (hn : c.pos ≤ n) :
    Agree (r c) (r' c) := by
  have hlevel : Level 0 0 n i c c :=
    ⟨c.pos, hi, hn, (Nat.zero_add _).symm, (Nat.zero_add _).symm, rfl⟩
  refine (h c c hlevel).imp fun a c' b d' ⟨hab, j, _, _, hc, hd, hwarnings⟩ => ⟨hab, ?_⟩
  obtain ⟨pos, warnings⟩ := c'
  obtain ⟨pos', warnings'⟩ := d'
  rw [Cursor.mk.injEq]
  exact ⟨hd.trans hc.symm, hwarnings⟩

/-- **The bound on the calls is never reached.** Wherever in the script an expression, a reference
or the number after a sigil is read, it is read in the same way with any larger bound. -/
theorem Scope.callBound_suffices (scope : Scope) {c : Cursor} (hpos : c.pos ≤ scope.script.size)
    {calls : Nat} (hcalls : scope.callBound c.pos ≤ calls) :
    Agree (scope.int c) (scope.expression calls c) ∧
      Agree (scope.intRef c) (scope.intRefWithin calls c) ∧
      Agree (scope.index c) (scope.indexTerm calls c) := by
  have halike : scope.Alike scope 0 0 scope.script.size := ⟨.refl scope.script, rfl, rfl⟩
  have hsteps := halike.expressionsInStep (scope.callBound c.pos)
  have hbound : 4 * (scope.script.size - c.pos) + 3 ≤ scope.callBound c.pos := by
    unfold Scope.callBound
    omega
  exact ⟨(hsteps.expression hbound (hbound.trans hcalls)).agree (Nat.le_refl _) hpos,
    (hsteps.intRefWithin (by omega) (by omega)).agree (Nat.le_refl _) hpos,
    (hsteps.indexTerm (by omega) (by omega)).agree (Nat.le_refl _) hpos⟩

end NovelScript.Operand
