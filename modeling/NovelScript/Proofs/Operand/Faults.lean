import NovelScript.Operand
import NovelScript.Proofs.Action

/-!
# How operands fail

An operand fails because it cannot be read or evaluated. Whether calls and loops match, and whether
a label exists, is no matter of operands: no fault of this kind comes from one.
-/

namespace NovelScript

/-- The fault tells that calls, loops or sections do not match, or that a label does not exist. -/
def Fault.OfControl (fault : Fault) : Prop :=
  fault.kind = .controlFlow ∨ fault.kind = .undefinedLabel

instance (fault : Fault) : Decidable fault.OfControl :=
  inferInstanceAs (Decidable (_ ∨ _))

/-- Faults of control are those of these two kinds. -/
@[simp]
theorem Fault.ofControl_iff (fault : Fault) :
    fault.OfControl ↔ fault.kind = .controlFlow ∨ fault.kind = .undefinedLabel := Iff.rfl

namespace Action

variable {ε σ α β : Type}

/-- From wherever `I` holds, the action fails only as `E` says of the fault and the state. -/
def Fails (I : σ → Prop) (E : ε → σ → Prop) (x : EStateM ε σ α) : Prop :=
  ∀ ⦃s e s'⦄, I s → x s = .error e s' → E e s'

namespace Fails

variable {I J : σ → Prop} {E : ε → σ → Prop} {x y : EStateM ε σ α} {f : α → EStateM ε σ β}
  {c : Prop} [Decidable c]

/-- Giving a result cannot fail. -/
protected theorem pure (a : α) : Fails I E (Pure.pure a : EStateM ε σ α) := by
  rintro s e s' _ ⟨⟩

/-- A failure is one that was foreseen. -/
protected theorem throw {e : ε} (h : ∀ s, I s → E e s) :
    Fails I E (MonadExcept.throw e : EStateM ε σ α) := by
  rintro s _ s' hs ⟨⟩
  exact h s hs

/-- The second action fails from where the first one leads to. -/
protected theorem bind {J : α → σ → Prop} (hx : Fails I E x) (hreaches : Reaches I J x)
    (hf : ∀ a, Fails (J a) E (f a)) : Fails I E (x >>= f) := by
  intro s e s' hs h
  cases hrun : x s with
  | ok a middle =>
    rw [bind_of_ok hrun] at h
    exact hf a (hreaches hs hrun) h
  | error fault middle =>
    rw [bind_of_error hrun] at h
    cases h
    exact hx hs hrun

/-- The second action fails where the first one has kept what it needs. -/
theorem keep (hx : Fails I E x) (hkeeps : Keeps I x) (hf : ∀ a, Fails I E (f a)) :
    Fails I E (x >>= f) :=
  .bind hx hkeeps.reaches hf

/-- The same, where it is known what the first action returns. -/
theorem keepReturns {P : α → Prop} (hx : Fails I E x) (hkeeps : Keeps I x) (hreturns : Returns x P)
    (hf : ∀ a, P a → Fails I E (f a)) : Fails I E (x >>= f) := by
  refine .bind (J := fun a s => P a ∧ I s) hx (fun s a s' hs h => ?_) fun a => ?_
  · exact ⟨hreturns s a s' h, hkeeps.reaches hs h⟩
  · exact fun s e s' hs h => hf a hs.1 hs.2 h

/-- What an action keeps holds where it fails. -/
theorem ofKeeps (hx : Keeps I x) (hE : ∀ e s, I s → E e s) : Fails I E x := by
  intro s e s' hs h
  have hafter := hx hs
  rw [after_of_error h] at hafter
  exact hE e s' hafter

/-- Starting from more, and failing in more ways. -/
theorem imp {I' : σ → Prop} {E' : ε → σ → Prop} (hx : Fails I E x) (hI : ∀ s, I' s → I s)
    (hE : ∀ e s, E e s → E' e s) : Fails I' E' x :=
  fun _ _ _ hs h => hE _ _ (hx (hI _ hs) h)

/-- Looking at the state. -/
protected theorem get {f : σ → EStateM ε σ α} (hf : ∀ s, I s → Fails I E (f s)) :
    Fails I E (MonadState.get >>= f) := fun s _ _ hs h => hf s hs hs h

/-- The same, where it matters which state it was. -/
theorem look {f : σ → EStateM ε σ α} (hf : ∀ s, I s → Fails (· = s) E (f s)) :
    Fails I E (MonadState.get >>= f) := fun s _ _ hs h => hf s hs rfl h

/-- A change of the state cannot fail. -/
protected theorem modify (g : σ → σ) : Fails I E (modify g : EStateM ε σ PUnit) := by
  rintro s e s' _ ⟨⟩

/-- Changing the state before the next action. -/
theorem change {g : σ → σ} {f : PUnit → EStateM ε σ α} (hg : ∀ s, I s → J (g s))
    (hf : Fails J E (f ⟨⟩)) : Fails I E (modify g >>= f) :=
  fun s _ _ hs h => hf (hg s hs) h

/-- Each of two ways fails as foreseen. -/
protected theorem ite (hx : c → Fails I E x) (hy : ¬ c → Fails I E y) :
    Fails I E (if c then x else y) := by
  split
  · next h => exact hx h
  · next h => exact hy h

/-- Two ways to the next action, where both keep what it needs. -/
theorem join (hx : Fails I E x ∧ Keeps I x) (hy : Fails I E y ∧ Keeps I y)
    (hf : ∀ a, Fails I E (f a)) : Fails I E (if c then x >>= f else y >>= f) :=
  .ite (fun _ => .keep hx.1 hx.2 hf) fun _ => .keep hy.1 hy.2 hf

/-- A failure in front of further actions. -/
theorem fail {e : ε} (h : ∀ s, I s → E e s) : Fails I E (MonadExcept.throw e >>= f) := by
  rintro s _ s' hs ⟨⟩
  exact h s hs

/-- A result that may be a fault. -/
theorem ofExcept {I : σ → Prop} {E : Fault → σ → Prop} {op : Except Fault α}
    (h : ∀ e, op = .error e → ∀ s, I s → E e s) : Fails I E (Action.ofExcept op : Action σ α) := by
  cases op with
  | ok a => exact .pure a
  | error fault => exact .throw (h fault rfl)

/-- A computation fails as foreseen, or is followed by what does. -/
theorem ofExcept_bind {I : σ → Prop} {E : Fault → σ → Prop} {op : Except Fault α}
    {f : α → Action σ β} (h : ∀ e, op = .error e → ∀ s, I s → E e s)
    (hf : ∀ a, op = .ok a → Fails I E (f a)) : Fails I E (Action.ofExcept op >>= f) := by
  cases op with
  | ok a => exact hf a rfl
  | error fault => exact .throw (h fault rfl)

end Fails

end Action

/-! ## Variables and numbers -/

private theorem Store.not_ofControl_of_index {n : Int32} {fault : Fault}
    (h : Store.index n = .error fault) : ¬ fault.OfControl := by
  unfold Store.index at h
  split at h <;> cases h
  simp [Fault.kind]

private theorem Operator.not_ofControl_of_apply {op : Operator} {lhs rhs : Int32} {fault : Fault}
    (h : op.apply lhs rhs = .error fault) : ¬ fault.OfControl := by
  unfold Operator.apply at h
  repeat' split at h
  all_goals cases h
  all_goals simp [Fault.kind]

private theorem Grid.not_ofControl_of_cellFrom {no : Int32} {offset : Int} {axis flat : Nat}
    {indices dims : List Int32} {fault : Fault}
    (h : Grid.cellFrom no offset axis flat indices dims = .error fault) : ¬ fault.OfControl := by
  fun_induction Grid.cellFrom no offset axis flat indices dims with
  | case1 => cases h; simp [Fault.kind]
  | case2 axis flat i indices d dims index hinside ih => exact ih h
  | case3 => cases h

private theorem Grids.not_ofControl_of_cell {grids : Grids} {no : Int32} {indices : List Int32}
    {offset : Int32} {α : Type} {f : Grid → Nat → Except Fault α} {fault : Fault}
    (h : (do
      let grid ← grids.lookup no
      let cell ← grid.cell no indices offset
      f grid cell) = .error fault) (hf : ∀ grid cell e, f grid cell = .error e → ¬ e.OfControl) :
    ¬ fault.OfControl := by
  unfold Grids.lookup at h
  split at h
  · next grid _ =>
    change (grid.cell no indices offset >>= f grid) = .error fault at h
    cases hcell : grid.cell no indices offset with
    | ok cell =>
      rw [hcell] at h
      exact hf grid cell fault h
    | error e =>
      rw [hcell] at h
      cases h
      unfold Grid.cell at hcell
      split at hcell
      · cases hcell
        simp [Fault.kind]
      · exact Grid.not_ofControl_of_cellFrom hcell
  · cases h
    simp [Fault.kind]

private theorem Store.not_ofControl_of_readInt {store : Store} {target : VariableRef}
    {fault : Fault} (h : store.readInt target = .error fault) : ¬ fault.OfControl := by
  cases target with
  | int n => cases h
  | array no indices => exact Grids.not_ofControl_of_cell h nofun
  | str n =>
    cases h
    simp [Fault.kind]

/-- Writing an integer fails for other reasons than control. -/
theorem Store.not_ofControl_of_writeInt {store : Store} {value : Int32} {target : VariableRef}
    {fault : Fault} (h : store.writeInt value target = .error fault) : ¬ fault.OfControl := by
  cases target with
  | int n => cases h
  | array no indices =>
    cases hwrite : store.grids.write no indices 0 value with
    | ok grids =>
      rw [writeInt, hwrite] at h
      cases h
    | error e =>
      rw [writeInt, hwrite] at h
      cases h
      exact Grids.not_ofControl_of_cell hwrite nofun
  | str n =>
    cases h
    simp [Fault.kind]

/-- So does writing a string. -/
theorem Store.not_ofControl_of_writeStr {store : Store} {value : Bytes} {target : VariableRef}
    {fault : Fault} (h : store.writeStr value target = .error fault) : ¬ fault.OfControl := by
  cases target with
  | str n => cases h
  | int n | array no indices =>
    cases h
    simp [Fault.kind]

namespace Action

/-! ## Actions without faults of control -/

variable {σ α β : Type}

/-- The action does not fail with a fault of control. -/
def Harmless (x : Action σ α) : Prop :=
  Fails (fun _ => True) (fun fault _ => ¬ fault.OfControl) x

namespace Harmless

variable {x y : Action σ α} {f : α → Action σ β} {c : Prop} [Decidable c]

/-- Giving a result is harmless. -/
protected theorem pure (a : α) : Harmless (Pure.pure a : Action σ α) :=
  Fails.pure a

/-- So is a failure that is none of control. -/
protected theorem throw {fault : Fault} (h : ¬ fault.OfControl) :
    Harmless (MonadExcept.throw fault : Action σ α) :=
  Fails.throw fun _ _ => h

/-- Harmless actions may follow each other. -/
protected theorem bind (hx : Harmless x) (hf : ∀ a, Harmless (f a)) : Harmless (x >>= f) :=
  Fails.keep hx (fun _ _ => trivial) hf

/-- Looking at the state is harmless. -/
protected theorem get {f : σ → Action σ α} (hf : ∀ s, Harmless (f s)) :
    Harmless (MonadState.get >>= f) :=
  fun s _ _ _ h => hf s trivial h

/-- So is changing it. -/
protected theorem modify (g : σ → σ) : Harmless (modify g : Action σ PUnit) :=
  Fails.modify g

/-- So is setting it. -/
protected theorem set (s : σ) : Harmless (MonadState.set s : Action σ PUnit) :=
  Fails.modify fun _ => s

/-- Each of two ways is harmless if both are. -/
protected theorem ite (hx : Harmless x) (hy : Harmless y) : Harmless (if c then x else y) :=
  Fails.ite (fun _ => hx) fun _ => hy

private theorem ofExcept {op : Except Fault α}
    (h : ∀ fault, op = .error fault → ¬ fault.OfControl) :
    Harmless (Action.ofExcept op : Action σ α) :=
  Fails.ofExcept fun fault hop _ _ => h fault hop

/-- A computation is harmless if its own failures are none of control. -/
theorem ofExcept_bind {op : Except Fault α} {f : α → Action σ β}
    (h : ∀ fault, op = .error fault → ¬ fault.OfControl) (hf : ∀ a, Harmless (f a)) :
    Harmless (Action.ofExcept op >>= f) :=
  .bind (.ofExcept h) hf

/-- Something to do before the next action, if a condition holds. -/
theorem doIf {x : Action σ Unit} {f : Unit → Action σ β} (hx : Harmless x) (hf : Harmless (f ())) :
    Harmless (if c then x >>= f else f ()) :=
  .ite (.bind hx fun _ => hf) hf

/-- Something to do before the next action, unless a condition holds. -/
theorem doUnless {x : Action σ Unit} {f : Unit → Action σ β} (hx : Harmless x)
    (hf : Harmless (f ())) : Harmless (if c then f () else x >>= f) :=
  .ite hf (.bind hx fun _ => hf)

end Harmless

end Action

open NovelScript.Action (Harmless)

namespace Operand

/-! ## Operands -/

variable {α : Type}

private theorem harmless_position {f : Nat → Reader α} (hf : ∀ pos, Harmless (f pos)) :
    Harmless (position >>= f) :=
  fun c _ _ _ h => hf c.pos trivial h

namespace Scope

variable (scope : Scope)

private theorem harmless_skipBlanks : Harmless scope.skipBlanks :=
  harmless_position fun _ => .modify _

private theorem harmless_eat (b : UInt8) : Harmless (scope.eat b) :=
  harmless_position fun _ => .ite (.bind (.modify _) fun _ => .pure _) (.pure _)

private theorem harmless_number? : Harmless scope.number? := by
  have hmove : ∀ (pos : Nat) (value : Option Int32), Harmless (do
      moveTo pos
      return value) := fun _ _ => .bind (.modify _) fun _ => .pure _
  refine harmless_position fun pos => .ite (hmove _ _) (.ite (hmove _ _) ?_)
  split
  · exact .pure _
  · split
    · exact hmove _ _
    · refine .ite (.pure _) (.bind (.modify _) fun _ => ?_)
      exact .bind (.modify _) fun _ => .pure _

/-- No reader of expressions fails with a fault of control. -/
structure ExpressionsHarmless (calls : Nat) : Prop where
  /-- Expressions do not. -/
  expression : Harmless (scope.expression calls)
  /-- Rests of expressions do not. -/
  continuation : ∀ lhs op rhs, Harmless (scope.continuation calls lhs op rhs)
  /-- Operators with their terms do not. -/
  operation? : Harmless (scope.operation? calls)
  /-- Terms do not. -/
  factor : Harmless (scope.factor calls)
  /-- References do not. -/
  intRefWithin : Harmless (scope.intRefWithin calls)
  /-- Indices in brackets do not. -/
  subscripts : ∀ no, Harmless (scope.subscripts calls no)
  /-- Numbers after sigils do not. -/
  indexTerm : Harmless (scope.indexTerm calls)

namespace ExpressionsHarmless

variable {scope : Scope} {calls : Nat} (ih : scope.ExpressionsHarmless calls)
include ih

private theorem expression_succ : Harmless (scope.expression (calls + 1)) := by
  refine .bind scope.harmless_skipBlanks fun _ => .bind (scope.harmless_eat _) fun negative => ?_
  refine .bind scope.harmless_skipBlanks fun _ => .bind ih.factor fun term => ?_
  refine .bind ih.operation? fun found => ?_
  cases found with
  | none => exact .pure _
  | some found => exact ih.continuation _ _ _

private theorem continuation_succ (lhs : Int32) (op : Operator) (rhs : Int32) :
    Harmless (scope.continuation (calls + 1) lhs op rhs) := by
  refine .bind ih.operation? fun found => ?_
  cases found with
  | none => exact .ofExcept fun _ => Operator.not_ofControl_of_apply
  | some found =>
    refine .ite ?_ ?_
    · exact .ofExcept_bind (fun _ => Operator.not_ofControl_of_apply) fun folded =>
        ih.continuation _ _ _
    · exact .ofExcept_bind (fun _ => Operator.not_ofControl_of_apply) fun folded =>
        ih.continuation _ _ _

private theorem operation?_succ : Harmless (scope.operation? (calls + 1)) := by
  refine .bind scope.harmless_skipBlanks fun _ => harmless_position fun pos => ?_
  split
  · exact .pure _
  · refine .bind (.modify _) fun _ => .bind scope.harmless_skipBlanks fun _ => ?_
    refine .bind ih.factor fun term => ?_
    cases term with
    | some value => exact .pure _
    | none => exact .bind (.modify _) fun _ => .pure _

private theorem factor_succ : Harmless (scope.factor (calls + 1)) := by
  refine .bind (scope.harmless_eat _) fun opened => .ite ?_ ?_
  · refine .bind ih.expression fun value => .bind scope.harmless_skipBlanks fun _ => ?_
    refine .bind (scope.harmless_eat _) fun closed => .doUnless (.throw (by decide)) ?_
    exact .bind scope.harmless_skipBlanks fun _ => .pure _
  · refine harmless_position fun pos => .ite ?_ ?_
    · refine .bind ih.intRefWithin fun target => ?_
      refine .ofExcept_bind (fun _ => Store.not_ofControl_of_readInt) fun value => ?_
      exact .bind scope.harmless_skipBlanks fun _ => .pure _
    · exact .bind scope.harmless_number? fun value =>
        .bind scope.harmless_skipBlanks fun _ => .pure _

private theorem intRefWithin_succ : Harmless (scope.intRefWithin (calls + 1)) := by
  refine .bind scope.harmless_skipBlanks fun _ => .bind (scope.harmless_eat _) fun isInt => ?_
  refine .ite ?_ (.bind (scope.harmless_eat _) fun isArray => .ite ?_ (.throw (by decide)))
  · refine .bind ih.indexTerm fun n => ?_
    exact .ofExcept_bind (fun _ => Store.not_ofControl_of_index) fun slot => .pure _
  · refine .bind ih.indexTerm fun no => .bind scope.harmless_skipBlanks fun _ => ?_
    exact .bind (ih.subscripts _) fun indices => .pure _

private theorem subscripts_succ (no : Int32) : Harmless (scope.subscripts (calls + 1) no) := by
  refine .bind (scope.harmless_eat _) fun opened => .ite ?_ (.pure _)
  refine .bind ih.expression fun index => .bind scope.harmless_skipBlanks fun _ => ?_
  refine .bind (scope.harmless_eat _) fun closed => .doUnless (.throw (by simp [Fault.kind])) ?_
  exact .bind scope.harmless_skipBlanks fun _ => .bind (ih.subscripts _) fun rest => .pure _

private theorem indexTerm_succ : Harmless (scope.indexTerm (calls + 1)) := by
  refine harmless_position fun pos => .ite ?_ ?_
  · exact .bind ih.intRefWithin fun target => .ofExcept fun _ => Store.not_ofControl_of_readInt
  · exact .bind scope.harmless_number? fun value => .pure _

end ExpressionsHarmless

private theorem expressionsHarmless (calls : Nat) : scope.ExpressionsHarmless calls := by
  induction calls with
  | zero =>
    exact ⟨.pure _, fun _ _ _ => .pure _, .pure _, .pure _, .throw (by decide), fun _ => .pure _,
      .pure _⟩
  | succ calls ih =>
    exact {
      expression := ih.expression_succ
      continuation := ih.continuation_succ
      operation? := ih.operation?_succ
      factor := ih.factor_succ
      intRefWithin := ih.intRefWithin_succ
      subscripts := ih.subscripts_succ
      indexTerm := ih.indexTerm_succ }

/-- Reading an integer expression is harmless. -/
theorem harmless_int : Harmless scope.int :=
  harmless_position fun _ => (scope.expressionsHarmless _).expression

private theorem harmless_index : Harmless scope.index :=
  harmless_position fun _ => (scope.expressionsHarmless _).indexTerm

/-- So is reading a reference to a variable. -/
theorem harmless_varRef : Harmless scope.varRef := by
  refine .bind scope.harmless_skipBlanks fun _ => .bind (scope.harmless_eat _) fun isStr => .ite ?_ ?_
  · refine .bind scope.harmless_index fun n => .bind scope.harmless_skipBlanks fun _ => ?_
    exact .ofExcept_bind (fun _ => Store.not_ofControl_of_index) fun slot => .pure _
  · refine .bind (harmless_position fun _ => (scope.expressionsHarmless _).intRefWithin) fun target => ?_
    exact .bind scope.harmless_skipBlanks fun _ => .pure _

private theorem harmless_literal (delimiter : UInt8) : Harmless (scope.literal delimiter) := by
  refine harmless_position fun pos => .ite ?_ ?_
  · exact .bind (.modify _) fun _ => .pure _
  · exact .bind (.modify _) fun _ => .bind (.modify _) fun _ => .pure _

private theorem harmless_strTerm : Harmless scope.strTerm := by
  refine .bind scope.harmless_skipBlanks fun _ => harmless_position fun pos => ?_
  split
  · exact .throw (by decide)
  · refine .ite ?_ (.ite ?_ (.ite ?_ ?_))
    · exact .bind (.modify _) fun _ => scope.harmless_literal _
    · refine .bind (.modify _) fun _ => .bind scope.harmless_index fun n => ?_
      exact .ofExcept_bind (fun _ => Store.not_ofControl_of_index) fun slot => .pure _
    · exact .bind (.modify _) fun _ => .pure _
    · split
      · split
        · exact .bind (.modify _) fun _ => .pure _
        · exact .throw (by simp [Fault.kind])
      · exact .ite (.throw (by decide)) (.throw (by decide))

private theorem harmless_strTail (terms : Nat) (front : Bytes) :
    Harmless (scope.strTail terms front) := by
  induction terms generalizing front with
  | zero => exact .pure _
  | succ terms ih =>
    refine .bind scope.harmless_skipBlanks fun _ => .bind (scope.harmless_eat _) fun joined => ?_
    refine .ite (.bind scope.harmless_skipBlanks fun _ => ?_) (.pure _)
    exact .bind scope.harmless_strTerm fun term => ih _

/-- So is reading a string expression. -/
theorem harmless_str : Harmless scope.str :=
  .bind scope.harmless_strTerm fun _ => harmless_position fun _ => scope.harmless_strTail _ _

/-- So is reading a label, which is not looked up yet. -/
theorem harmless_label : Harmless scope.label := by
  refine .bind scope.harmless_skipBlanks fun _ => .bind (scope.harmless_eat _) fun starred => ?_
  refine .ite (harmless_position fun pos => ?_) (.bind scope.harmless_str fun bytes => ?_)
  · split
    · exact .throw (by decide)
    · exact .bind (.modify _) fun _ => .bind scope.harmless_skipBlanks fun _ => .pure _
  · exact .ite (.bind (.throw (by decide)) fun _ => .pure _) (.pure _)

end Scope

end Operand

end NovelScript
