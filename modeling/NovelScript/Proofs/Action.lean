import NovelScript.Action

/-!
# Laws of actions

How a sequence of two actions runs, once the result of the first one is known, and where an action
leaves its state, whether it succeeds or fails. A property of the state that every part of an action
keeps is kept by the whole; the rules for that follow the way actions are put together.
-/

namespace NovelScript.Action

variable {ε σ α β : Type}

/-- What runs end with can be compared. -/
instance instDecidableEqResult [DecidableEq ε] [DecidableEq σ] [DecidableEq α] :
    DecidableEq (EStateM.Result ε σ α)
  | .ok a s, .ok a' s' => decidable_of_iff (a = a' ∧ s = s') (by simp)
  | .error e s, .error e' s' => decidable_of_iff (e = e' ∧ s = s') (by simp)
  | .ok _ _, .error _ _ => isFalse nofun
  | .error _ _, .ok _ _ => isFalse nofun

/-- What succeeds in two parts succeeds in each. -/
theorem exists_of_bind_eq_ok {x : Except ε α} {f : α → Except ε β} {b : β}
    (h : x >>= f = .ok b) : ∃ a, x = .ok a ∧ f a = .ok b := by
  cases x with
  | ok a => exact ⟨a, rfl, h⟩
  | error e => cases h

/-- A result that is there is no fault. -/
theorem eq_ok_of_toOption {x : Except ε α} {a : α} (h : x.toOption = some a) : x = .ok a := by
  cases x with
  | ok b => exact congrArg Except.ok (Option.some.inj h)
  | error e => cases h

/-- After a first action that succeeds the second one goes on from its state. -/
theorem bind_of_ok {x : EStateM ε σ α} {s s' : σ} {a : α} (h : x s = .ok a s')
    (f : α → EStateM ε σ β) : (x >>= f) s = f a s' := by
  change EStateM.bind x f s = f a s'
  simp only [EStateM.bind, h]

/-- After a first action that fails nothing more happens. -/
theorem bind_of_error {x : EStateM ε σ α} {s s' : σ} {e : ε} (h : x s = .error e s')
    (f : α → EStateM ε σ β) : (x >>= f) s = .error e s' := by
  change EStateM.bind x f s = .error e s'
  simp only [EStateM.bind, h]

/-- What comes after a first action matters only where that succeeds. -/
theorem bind_congr_of_ok {x : EStateM ε σ α} {f g : α → EStateM ε σ β} {s : σ}
    (h : ∀ a s', x s = .ok a s' → f a s' = g a s') : (x >>= f) s = (x >>= g) s := by
  cases hx : x s with
  | ok a s' => rw [bind_of_ok hx, bind_of_ok hx, h a s' hx]
  | error e s' => rw [bind_of_error hx, bind_of_error hx]

/-- Looking at the state. -/
theorem get_bind (f : σ → EStateM ε σ α) (s : σ) : (MonadState.get >>= f) s = f s s := rfl

/-- Going on with a result that is there. -/
theorem ofExcept_bind_of_ok {op : Except Fault α} {a : α} (h : op = .ok a) (f : α → Action σ β)
    (s : σ) : (Action.ofExcept op >>= f) s = f a s := by
  subst h
  rfl

/-- Changing the state. -/
theorem modify_bind (g : σ → σ) (f : PUnit → EStateM ε σ α) (s : σ) :
    (modify g >>= f) s = f ⟨⟩ (g s) := rfl

/-- What succeeds in two parts succeeds in each. -/
theorem exists_of_run_eq_ok {x : EStateM ε σ α} {f : α → EStateM ε σ β} {s s' : σ} {b : β}
    (h : (x >>= f) s = .ok b s') : ∃ a middle, x s = .ok a middle ∧ f a middle = .ok b s' := by
  cases hx : x s with
  | ok a middle =>
    rw [bind_of_ok hx] at h
    exact ⟨a, middle, rfl, h⟩
  | error e middle =>
    rw [bind_of_error hx] at h
    cases h

/-- A result before an action that succeeds is no fault. -/
theorem exists_of_ofExcept_eq_ok {op : Except Fault α} {f : α → Action σ β} {s s' : σ} {b : β}
    (h : (Action.ofExcept op >>= f) s = .ok b s') : ∃ a, op = .ok a ∧ f a s = .ok b s' := by
  cases op with
  | ok a => exact ⟨a, rfl, h⟩
  | error fault => cases h

/-- Where an action succeeds, it also does so when its result is thrown away. -/
theorem discard_of_ok {x : EStateM ε σ α} {s s' : σ} {a : α} (h : x s = .ok a s') :
    discard x s = .ok () s' := by
  change EStateM.map (fun _ => ()) x s = .ok () s'
  simp only [EStateM.map, h]

/-- Where it fails, it fails in the same way. -/
theorem discard_of_error {x : EStateM ε σ α} {s s' : σ} {e : ε} (h : x s = .error e s') :
    discard x s = .error e s' := by
  change EStateM.map (fun _ => ()) x s = .error e s'
  simp only [EStateM.map, h]

/-- The state that an action leaves, whether it succeeds or fails. -/
def after (x : EStateM ε σ α) (s : σ) : σ :=
  match x s with
  | .ok _ s' => s'
  | .error _ s' => s'

/-- An action that succeeds leaves the state that it gives. -/
theorem after_of_ok {x : EStateM ε σ α} {s s' : σ} {a : α} (h : x s = .ok a s') :
    after x s = s' := by
  rw [after, h]

/-- So does an action that fails. -/
theorem after_of_error {x : EStateM ε σ α} {s s' : σ} {e : ε} (h : x s = .error e s') :
    after x s = s' := by
  rw [after, h]

/-- What an action gives, if it succeeds. -/
def value? (x : EStateM ε σ α) (s : σ) : Option α :=
  match x s with
  | .ok a _ => some a
  | .error _ _ => none

/-- An action that gives something succeeds with it. -/
theorem eq_ok_of_value? {x : EStateM ε σ α} {s : σ} {a : α} (h : value? x s = some a) :
    x s = .ok a (after x s) := by
  cases hx : x s with
  | ok b s' =>
    rw [value?, hx] at h
    rw [after_of_ok hx, Option.some.inj h]
  | error e s' =>
    rw [value?, hx] at h
    cases h

/-- What an action gives may be put in another form. -/
theorem after_bind_pure (x : EStateM ε σ α) (f : α → β) (s : σ) :
    after (x >>= fun a => pure (f a)) s = after x s := by
  cases hx : x s with
  | ok a s' =>
    rw [after_of_ok hx, after, bind_of_ok hx]
    rfl
  | error e s' => rw [after_of_error hx, after, bind_of_error hx]

/-! ## What an action gives -/

/-- Whatever the action gives, together with the state that it leaves, satisfies `P`. -/
def Yields (x : EStateM ε σ α) (P : α → σ → Prop) : Prop :=
  ∀ s a s', x s = .ok a s' → P a s'

namespace Yields

/-- The last action of a sequence decides what it gives. -/
protected theorem bind {x : EStateM ε σ α} {f : α → EStateM ε σ β} {P : β → σ → Prop}
    (hf : ∀ a, Yields (f a) P) : Yields (x >>= f) P := by
  intro s b s' h
  obtain ⟨a, middle, -, h⟩ := exists_of_run_eq_ok h
  exact hf a middle b s' h

/-- Looking at the state that the last action starts from. -/
theorem look {f : σ → EStateM ε σ α} {P : α → σ → Prop}
    (hf : ∀ s a s', f s s = .ok a s' → P a s') : Yields (MonadState.get >>= f) P :=
  fun s a s' h => hf s a s' h

/-- A failure gives nothing. -/
theorem fail {e : ε} {f : α → EStateM ε σ β} {P : β → σ → Prop} : Yields (throw e >>= f) P := by
  rintro s b s' ⟨⟩

/-- Of two ways only one is taken, and both yield what satisfies `P`. -/
protected theorem ite {c : Prop} [Decidable c] {x y : EStateM ε σ α} {P : α → σ → Prop}
    (hx : Yields x P) (hy : Yields y P) : Yields (if c then x else y) P := by
  split
  · exact hx
  · exact hy

/-- Two ways to the last action of a sequence. -/
theorem join {c : Prop} [Decidable c] {x y : EStateM ε σ α} {f : α → EStateM ε σ β}
    {P : β → σ → Prop} (hf : ∀ a, Yields (f a) P) : Yields (if c then x >>= f else y >>= f) P :=
  .ite (.bind hf) (.bind hf)

end Yields

/-- Whatever the action gives satisfies `P`. -/
def Returns (x : EStateM ε σ α) (P : α → Prop) : Prop :=
  Yields x fun a _ => P a

namespace Returns

variable {x y : EStateM ε σ α} {f : α → EStateM ε σ β} {P : α → Prop} {Q : β → Prop} {c : Prop}
  [Decidable c]

/-- What is given at once satisfies `P` if it does. -/
protected theorem pure {a : α} (ha : P a) : Returns (Pure.pure a : EStateM ε σ α) P := by
  rintro s _ s' ⟨⟩
  exact ha

/-- What two actions return is what the second one returns. -/
protected theorem bind (hf : ∀ a, Returns (f a) Q) : Returns (x >>= f) Q :=
  Yields.bind hf

/-- A failure returns nothing. -/
theorem fail {e : ε} : Returns (throw e >>= f) Q :=
  Yields.fail

/-- Both ways return what satisfies `P`. -/
protected theorem ite (hx : Returns x P) (hy : Returns y P) : Returns (if c then x else y) P :=
  Yields.ite hx hy

/-- Two ways that lead to the same action return what that action returns. -/
theorem join (hf : ∀ a, Returns (f a) Q) : Returns (if c then x >>= f else y >>= f) Q :=
  Yields.join hf

/-- The last action may count on what the first one gives. -/
theorem seq (hx : Returns x P) (hf : ∀ a, P a → Returns (f a) Q) : Returns (x >>= f) Q := by
  intro s b s' h
  obtain ⟨a, middle, ha, h⟩ := exists_of_run_eq_ok h
  exact hf a (hx s a middle ha) middle b s' h

/-- A failure gives nothing, also as the last action. -/
protected theorem throw {e : ε} : Returns (MonadExcept.throw e : EStateM ε σ α) P := by
  rintro s a s' ⟨⟩

/-- What a result gives that may be a fault. -/
theorem ofExcept {op : Except Fault α} {P : α → Prop} (h : ∀ a, op = .ok a → P a) :
    Returns (Action.ofExcept op : Action σ α) P := by
  cases op with
  | ok a => exact .pure (h a rfl)
  | error fault => exact .throw

end Returns

/-! ## What an action keeps -/

/-- From wherever `I` holds, the action leads to where `J` holds. -/
def Leads (I J : σ → Prop) (x : EStateM ε σ α) : Prop :=
  ∀ ⦃s⦄, I s → J (after x s)

/-- Wherever the action leaves the state, what held of it still holds. -/
def Keeps (I : σ → Prop) (x : EStateM ε σ α) : Prop :=
  Leads I I x

/-- The second action starts from where the first one leads; it may count on what that gave. -/
theorem Leads.seq {I J K : σ → Prop} {x : EStateM ε σ α} {f : α → EStateM ε σ β}
    (hJK : ∀ s, J s → K s) (hx : Leads I J x)
    (hf : ∀ s a s', I s → x s = .ok a s' → Leads J K (f a)) : Leads I K (x >>= f) := by
  intro s hs
  have hmiddle := hx hs
  cases hrun : x s with
  | ok a s' =>
    rw [after_of_ok hrun] at hmiddle
    rw [after, bind_of_ok hrun]
    exact hf s a s' hs hrun hmiddle
  | error e s' =>
    rw [after_of_error hrun] at hmiddle
    rw [after_of_error (bind_of_error hrun f)]
    exact hJK s' hmiddle

namespace Keeps

variable {I : σ → Prop} {x y : EStateM ε σ α} {f : α → EStateM ε σ β} {c : Prop} [Decidable c]

/-- Giving a result changes nothing. -/
protected theorem pure (a : α) : Keeps I (Pure.pure a : EStateM ε σ α) := fun _ hs => hs

/-- Failing changes nothing. -/
protected theorem throw (e : ε) : Keeps I (MonadExcept.throw e : EStateM ε σ α) := fun _ hs => hs

/-- The second action may count on what the first one gave. -/
theorem seq (hx : Keeps I x) (hf : ∀ s a s', I s → x s = .ok a s' → Keeps I (f a)) :
    Keeps I (x >>= f) :=
  Leads.seq (fun _ hs => hs) hx hf

/-- Two actions keep what each of them keeps. -/
protected theorem bind (hx : Keeps I x) (hf : ∀ a, Keeps I (f a)) : Keeps I (x >>= f) :=
  hx.seq fun _ a _ _ _ => hf a

/-- The second action may count on what the first one always gives. -/
theorem bindReturns {P : α → Prop} (hx : Keeps I x) (hreturns : Returns x P)
    (hf : ∀ a, P a → Keeps I (f a)) : Keeps I (x >>= f) :=
  hx.seq fun s a s' _ hrun => hf a (hreturns s a s' hrun)

/-- One action after another, from one state. -/
theorem andThen {s : σ} (hx : I (after x s)) (hf : ∀ a, Keeps I (f a)) :
    I (after (x >>= f) s) := by
  cases hrun : x s with
  | ok a s' =>
    rw [after_of_ok hrun] at hx
    rw [after, bind_of_ok hrun]
    exact hf a hx
  | error e s' =>
    rw [after_of_error hrun] at hx
    rwa [after_of_error (bind_of_error hrun f)]

/-- Looking at the state that the next action starts from. -/
theorem look {f : σ → EStateM ε σ α} (hf : ∀ s, I s → I (after (f s) s)) :
    Keeps I (MonadState.get >>= f) := fun s hs => hf s hs

/-- Looking at the state: from there on it is known what held of it. -/
protected theorem get {f : σ → EStateM ε σ α} (hf : ∀ s, I s → Keeps I (f s)) :
    Keeps I (MonadState.get >>= f) := look fun s hs => hf s hs hs

/-- A change of the state keeps what it preserves. -/
protected theorem modify {f : σ → σ} (hf : ∀ s, I s → I (f s)) :
    Keeps I (modify f : EStateM ε σ PUnit) := fun s hs => hf s hs

/-- A new state is as good as the old one if it has the property. -/
protected theorem set {s' : σ} (h : I s') : Keeps I (MonadState.set s' : EStateM ε σ PUnit) :=
  fun _ _ => h

/-- Two ways on from one state. -/
theorem choose {s : σ} (hx : c → I (after x s)) (hy : ¬ c → I (after y s)) :
    I (after (if c then x else y) s) := by
  split
  · next h => exact hx h
  · next h => exact hy h

/-- Of two ways only one is taken, each where its condition holds. -/
protected theorem ite (hx : c → Keeps I x) (hy : ¬ c → Keeps I y) :
    Keeps I (if c then x else y) :=
  fun _ hs => choose (fun h => hx h hs) fun h => hy h hs

/-- A failure does nothing more. -/
theorem fail {e : ε} : Keeps I (MonadExcept.throw e >>= f) := fun _ hs => hs

/-- A check in front of the next action. -/
theorem guard {e : ε} {f : Unit → EStateM ε σ β} (hf : ¬ c → Keeps I (f ())) :
    Keeps I (if c then MonadExcept.throw e >>= f else f ()) :=
  .ite (fun _ => fail) hf

/-- Something to do before the next action, if a condition holds. -/
theorem doIf {x : EStateM ε σ Unit} {f : Unit → EStateM ε σ β} (hx : Keeps I x)
    (hf : Keeps I (f ())) : Keeps I (if c then x >>= f else f ()) :=
  .ite (fun _ => .bind hx fun _ => hf) fun _ => hf

/-- Something to do before the next action, unless a condition holds. -/
theorem doUnless {x : EStateM ε σ Unit} {f : Unit → EStateM ε σ β} (hx : Keeps I x)
    (hf : Keeps I (f ())) : Keeps I (if c then f () else x >>= f) :=
  .ite (fun _ => hf) fun _ => .bind hx fun _ => hf

/-- Two ways to the next action. -/
theorem join (hx : Keeps I x) (hy : Keeps I y) (hf : ∀ a, Keeps I (f a)) :
    Keeps I (if c then x >>= f else y >>= f) :=
  .ite (fun _ => .bind hx hf) fun _ => .bind hy hf

/-- What is done with the result does not matter. -/
protected theorem map (f : α → β) (hx : Keeps I x) : Keeps I (f <$> x) := by
  rw [map_eq_pure_bind]
  exact .bind hx fun a => .pure (f a)

/-- Nor does it matter that the result is thrown away. -/
protected theorem discard (hx : Keeps I x) : Keeps I (discard x) :=
  hx.map fun _ => ()

/-- A result that may be a fault changes nothing. -/
theorem ofExcept {I : σ → Prop} {op : Except Fault α} :
    Keeps I (Action.ofExcept op : Action σ α) := by
  cases op with
  | ok a => exact .pure a
  | error fault => exact .throw fault

/-- An action after a result, from one state. -/
theorem ofExcept_andThen {I : σ → Prop} {op : Except Fault α} {f : α → Action σ β} {s : σ}
    (hs : I s) (hf : ∀ a, op = .ok a → I (after (f a) s)) :
    I (after (Action.ofExcept op >>= f) s) := by
  cases op with
  | ok a => exact hf a rfl
  | error fault => exact hs

/-- The next action may count on the result. -/
theorem ofExcept_bind {I : σ → Prop} {op : Except Fault α} {f : α → Action σ β}
    (hf : ∀ a, op = .ok a → Keeps I (f a)) : Keeps I (Action.ofExcept op >>= f) :=
  fun _ hs => ofExcept_andThen hs fun a h => hf a h hs

end Keeps

namespace Leads

/-- Starting from less than what an action keeps. -/
theorem ofKeeps {I J : σ → Prop} {x : EStateM ε σ α} (hIJ : ∀ s, I s → J s) (hx : Keeps J x) :
    Leads I J x := fun s hs => hx (hIJ s hs)

variable {I J K : σ → Prop} {x y : EStateM ε σ α} {f : α → EStateM ε σ β} {c : Prop} [Decidable c]

/-- After the first action either it has failed, with `J`, or the second one leads on from `J`. -/
protected theorem bind (hJK : ∀ s, J s → K s) (hx : Leads I J x) (hf : ∀ a, Leads J K (f a)) :
    Leads I K (x >>= f) :=
  .seq hJK hx fun _ a _ _ _ => hf a

/-- The second action starts from what the first one keeps. -/
theorem keep (hIJ : ∀ s, I s → J s) (hx : Keeps I x) (hf : ∀ a, Leads I J (f a)) :
    Leads I J (x >>= f) :=
  .bind hIJ hx hf

/-- What a first action leads to is kept by the second one. -/
theorem andThen (hx : Leads I J x) (hf : ∀ a, Keeps J (f a)) : Leads I J (x >>= f) :=
  .bind (fun _ hs => hs) hx hf

/-- Looking at the state that the next action starts from. -/
theorem look {f : σ → EStateM ε σ α} (hf : ∀ s, I s → J (after (f s) s)) :
    Leads I J (MonadState.get >>= f) := fun s hs => hf s hs

/-- Looking at the state leads nowhere by itself. -/
protected theorem get {f : σ → EStateM ε σ α} (hf : ∀ s, I s → Leads I J (f s)) :
    Leads I J (MonadState.get >>= f) := look fun s hs => hf s hs hs

/-- A change of the state leads to what it establishes. -/
protected theorem modify {f : σ → σ} (hf : ∀ s, I s → J (f s)) :
    Leads I J (modify f : EStateM ε σ PUnit) := fun s hs => hf s hs

/-- Each of two ways leads on where its condition holds. -/
protected theorem ite (hx : c → Leads I J x) (hy : ¬ c → Leads I J y) :
    Leads I J (if c then x else y) :=
  fun _ hs => Keeps.choose (fun h => hx h hs) fun h => hy h hs

/-- Something to do before the next action, unless a condition holds. -/
theorem doUnless {x : EStateM ε σ Unit} {f : Unit → EStateM ε σ β} (hIJ : ∀ s, I s → J s)
    (hx : Keeps I x) (hf : Leads I J (f ())) : Leads I J (if c then f () else x >>= f) :=
  .ite (fun _ => hf) fun _ => .keep hIJ hx fun _ => hf

end Leads

/-! ## All or nothing -/

/-- If the action fails, it has changed nothing. -/
def Atomic (x : EStateM ε σ α) : Prop :=
  ∀ ⦃s e s'⦄, x s = .error e s' → s' = s

namespace Atomic

/-- A failure by itself leaves the state as it was. -/
protected theorem throw (e : ε) : Atomic (MonadExcept.throw e : EStateM ε σ α) := by
  rintro s _ s' ⟨⟩
  rfl

/-- Setting the state never fails. -/
protected theorem set (next : σ) : Atomic (MonadState.set next : EStateM ε σ PUnit) := by
  rintro s e s' ⟨⟩

/-- Looking at the state changes nothing. -/
protected theorem get {f : σ → EStateM ε σ α} (hf : ∀ s, Atomic (f s)) :
    Atomic (MonadState.get >>= f) := fun s _ _ h => hf s h

/-- Nor does a result that may be a fault. -/
theorem ofExcept_bind {op : Except Fault α} {f : α → Action σ β} (hf : ∀ a, Atomic (f a)) :
    Atomic (Action.ofExcept op >>= f) := by
  cases op with
  | ok a => exact hf a
  | error fault => exact .throw fault

end Atomic

/-! ## What an action gives while it keeps something -/

/-- A run has ended where `I` holds, and if it gave something, that satisfies `P`. -/
def Ends (I : σ → Prop) (P : α → Prop) : EStateM.Result ε σ α → Prop
  | .ok a s => I s ∧ P a
  | .error _ s => I s

/-- The action keeps `I`, and where `I` holds, what the action gives satisfies `P`. -/
def Gives (I : σ → Prop) (P : α → Prop) (x : EStateM ε σ α) : Prop :=
  ∀ ⦃s⦄, I s → Ends I P (x s)

namespace Ends

variable {I : σ → Prop} {P : α → Prop} {Q : β → Prop} {x : EStateM ε σ α}
  {f : α → EStateM ε σ β} {s : σ}

private theorem after (h : Ends I P (x s)) : I (after x s) := by
  cases hrun : x s with
  | ok a s' =>
    rw [hrun] at h
    rw [after_of_ok hrun]
    exact h.1
  | error e s' =>
    rw [hrun] at h
    rw [after_of_error hrun]
    exact h

/-- What an action keeps holds where it has ended. -/
theorem ofAfter (h : I (Action.after x s)) : Ends I (fun _ => True) (x s) := by
  cases hrun : x s with
  | ok a s' =>
    rw [after_of_ok hrun] at h
    exact ⟨h, trivial⟩
  | error e s' => rwa [after_of_error hrun] at h

/-- The second action goes on from where the first one has ended. -/
protected theorem bind (h : Ends I P (x s)) (hf : ∀ a, P a → Gives I Q (f a)) :
    Ends I Q ((x >>= f) s) := by
  cases hrun : x s with
  | ok a s' =>
    rw [hrun] at h
    rw [bind_of_ok hrun]
    exact hf a h.2 h.1
  | error e s' =>
    rw [hrun] at h
    rw [bind_of_error hrun]
    exact h

end Ends

namespace Gives

variable {I : σ → Prop} {P : α → Prop} {Q : β → Prop} {x y : EStateM ε σ α}
  {f : α → EStateM ε σ β} {c : Prop} [Decidable c]

/-- An action with good results keeps the property. -/
theorem keeps (hx : Gives I P x) : Keeps I x :=
  fun _ hs => (hx hs).after

/-- What it gives is good. -/
theorem gives (hx : Gives I P x) {s s' : σ} {a : α} (hs : I s) (hrun : x s = .ok a s') : P a := by
  have hends := hx hs
  rw [hrun] at hends
  exact hends.2

/-- Of an action it may be enough to know what it keeps. -/
theorem ofKeeps (hx : Keeps I x) : Gives I (fun _ => True) x :=
  fun _ hs => .ofAfter (hx hs)

/-- A good result may be given at once. -/
protected theorem pure {a : α} (ha : P a) : Gives I P (Pure.pure a : EStateM ε σ α) :=
  fun _ hs => ⟨hs, ha⟩

/-- A failure gives nothing. -/
protected theorem throw (e : ε) : Gives I P (MonadExcept.throw e : EStateM ε σ α) :=
  fun _ hs => hs

/-- The second action may rely on what the first one gives. -/
protected theorem bind (hx : Gives I P x) (hf : ∀ a, P a → Gives I Q (f a)) :
    Gives I Q (x >>= f) :=
  fun _ hs => (hx hs).bind hf

/-- The second action gives the results, and the first one only has to keep the property. -/
theorem andThen (hx : Keeps I x) (hf : ∀ a, Gives I Q (f a)) : Gives I Q (x >>= f) :=
  .bind (.ofKeeps hx) fun a _ => hf a

/-- Looking at the state. -/
protected theorem get {f : σ → EStateM ε σ α} (hf : ∀ s, I s → Gives I P (f s)) :
    Gives I P (MonadState.get >>= f) := fun s hs => hf s hs hs

/-- Each of two ways has good results where its condition holds. -/
protected theorem ite (hx : c → Gives I P x) (hy : ¬ c → Gives I P y) :
    Gives I P (if c then x else y) := by
  split
  · next h => exact hx h
  · next h => exact hy h

/-- Two ways to the next action. -/
theorem join (hx : Keeps I x) (hy : Keeps I y) (hf : ∀ a, Gives I Q (f a)) :
    Gives I Q (if c then x >>= f else y >>= f) :=
  .ite (fun _ => .andThen hx hf) fun _ => .andThen hy hf

/-- A failure gives nothing. -/
theorem fail {e : ε} : Gives I Q (MonadExcept.throw e >>= f) := fun _ hs => hs

/-- The next action may count on a result that may be a fault. -/
theorem ofExcept_bind {op : Except Fault α} {f : α → Action σ β}
    (hf : ∀ a, op = .ok a → Gives I Q (f a)) : Gives I Q (Action.ofExcept op >>= f) := by
  cases op with
  | ok a => exact hf a rfl
  | error fault => exact .throw fault

end Gives

/-- The second action may count on what the first one gives. -/
theorem Keeps.bindGives {I : σ → Prop} {P : α → Prop} {x : EStateM ε σ α}
    {f : α → EStateM ε σ β} (hx : Gives I P x) (hf : ∀ a, P a → Keeps I (f a)) :
    Keeps I (x >>= f) :=
  Gives.keeps (.bind hx fun a ha => .ofKeeps (hf a ha))

/-! ## Where an action that succeeds leads to -/

/-- From wherever `I` holds, the action leads to where `J` holds of what it gives, if it
succeeds. -/
def Reaches (I : σ → Prop) (J : α → σ → Prop) (x : EStateM ε σ α) : Prop :=
  ∀ ⦃s a s'⦄, I s → x s = .ok a s' → J a s'

namespace Reaches

variable {I : σ → Prop} {J : α → σ → Prop} {K : β → σ → Prop} {x y : EStateM ε σ α}
  {f : α → EStateM ε σ β} {c : Prop} [Decidable c]

/-- Giving a result reaches what already holds of it. -/
protected theorem pure {a : α} (h : ∀ s, I s → J a s) :
    Reaches I J (Pure.pure a : EStateM ε σ α) := by
  rintro s _ s' hs ⟨⟩
  exact h s hs

/-- A failure reaches nothing. -/
protected theorem throw (e : ε) : Reaches I J (MonadExcept.throw e : EStateM ε σ α) := by
  rintro s a s' hs ⟨⟩

/-- The second action goes on from where the first one leads to. -/
protected theorem bind (hx : Reaches I J x) (hf : ∀ a, Reaches (J a) K (f a)) :
    Reaches I K (x >>= f) := by
  intro s b s' hs h
  obtain ⟨a, middle, ha, h⟩ := exists_of_run_eq_ok h
  exact hf a (hx hs ha) h

/-- A failure leads nowhere. -/
theorem fail {e : ε} : Reaches I K (MonadExcept.throw e >>= f) := by
  rintro s b s' hs ⟨⟩

/-- Looking at the state. -/
protected theorem get {f : σ → EStateM ε σ α} (hf : ∀ s, I s → Reaches I J (f s)) :
    Reaches I J (MonadState.get >>= f) := fun s _ _ hs h => hf s hs hs h

/-- A change of the state reaches what it establishes. -/
protected theorem modify {J : PUnit → σ → Prop} {f : σ → σ} (hf : ∀ s, I s → J ⟨⟩ (f s)) :
    Reaches I J (modify f : EStateM ε σ PUnit) := by
  rintro s _ s' hs ⟨⟩
  exact hf s hs

/-- Each of two ways reaches the same where its condition holds. -/
protected theorem ite (hx : c → Reaches I J x) (hy : ¬ c → Reaches I J y) :
    Reaches I J (if c then x else y) := by
  split
  · next h => exact hx h
  · next h => exact hy h

/-- A check in front of the next action. -/
theorem doUnless {e : ε} {f : Unit → EStateM ε σ β} (hf : c → Reaches I K (f ())) :
    Reaches I K (if c then f () else MonadExcept.throw e >>= f) :=
  .ite hf fun _ => .fail

/-- Starting from more, and leading to less. -/
theorem imp {I' : σ → Prop} {J' : α → σ → Prop} (hx : Reaches I J x) (hI : ∀ s, I' s → I s)
    (hJ : ∀ a s, J a s → J' a s) : Reaches I' J' x :=
  fun s _ _ hs h => hJ _ _ (hx (hI s hs) h)

/-- A result that may be a fault changes nothing. -/
theorem ofExcept {I : σ → Prop} {op : Except Fault α} :
    Reaches I (fun _ => I) (Action.ofExcept op : Action σ α) := by
  cases op with
  | ok a => exact .pure fun _ hs => hs
  | error fault => exact .throw fault

/-- A computation that may fail is followed by an action that reaches something for each of its
results. -/
theorem ofExcept_bind {I : σ → Prop} {op : Except Fault α} {f : α → Action σ β}
    {K : β → σ → Prop} (hf : ∀ a, op = .ok a → Reaches I K (f a)) :
    Reaches I K (Action.ofExcept op >>= f) := by
  cases op with
  | ok a => exact hf a rfl
  | error fault => exact .throw fault

end Reaches

/-- What an action keeps holds where it leads to. -/
theorem Keeps.reaches {I : σ → Prop} {x : EStateM ε σ α} (hx : Keeps I x) :
    Reaches I (fun _ => I) x := by
  intro s a s' hs h
  have hafter := hx hs
  rwa [after_of_ok h] at hafter

/-! ## Two runs side by side -/

/-- Two runs ended alike: both gave something, and `A` relates what they gave and the states that
they left, or both failed for the same reason. -/
inductive Paired {τ : Type} (A : α → σ → β → τ → Prop) :
    EStateM.Result ε σ α → EStateM.Result ε τ β → Prop where
  /-- Both gave something. -/
  | ok {a : α} {b : β} {s : σ} {t : τ} (h : A a s b t) : Paired A (.ok a s) (.ok b t)
  /-- Both failed. -/
  | error (e : ε) (s : σ) (t : τ) : Paired A (.error e s) (.error e t)

namespace Paired

/-- Less may be said of what was given. -/
theorem imp {τ : Type} {A B : α → σ → β → τ → Prop} {r : EStateM.Result ε σ α}
    {r' : EStateM.Result ε τ β} (h : Paired A r r') (hAB : ∀ a s b t, A a s b t → B a s b t) :
    Paired B r r' := by
  cases h with
  | ok hab => exact .ok (hAB _ _ _ _ hab)
  | error e s t => exact .error e s t

variable {τ γ δ : Type} {A : α → σ → β → τ → Prop} {B : γ → σ → δ → τ → Prop}
  {x : EStateM ε σ α} {y : EStateM ε τ β} {f : α → EStateM ε σ γ} {g : β → EStateM ε τ δ}
  {s : σ} {t : τ}

/-- The second actions go on from where the first ones have ended. -/
protected theorem bind (h : Paired A (x s) (y t))
    (hfg : ∀ a s' b t', A a s' b t' → Paired B (f a s') (g b t')) :
    Paired B ((x >>= f) s) ((y >>= g) t) := by
  cases hx : x s with
  | ok a s' =>
    cases hy : y t with
    | ok b t' =>
      rw [hx, hy] at h
      rw [bind_of_ok hx, bind_of_ok hy]
      cases h with
      | ok hab => exact hfg a s' b t' hab
    | error e t' =>
      rw [hx, hy] at h
      cases h
  | error e s' =>
    cases hy : y t with
    | ok b t' =>
      rw [hx, hy] at h
      cases h
    | error e' t' =>
      rw [hx, hy] at h
      rw [bind_of_error hx, bind_of_error hy]
      cases h
      exact .error _ _ _

/-- More may be said of what the first run gave. -/
theorem and_left {P : α → σ → Prop} {r : EStateM.Result ε σ α} {r' : EStateM.Result ε τ β}
    (h : Paired A r r') (hP : ∀ a s, r = .ok a s → P a s) :
    Paired (fun a s b t => P a s ∧ A a s b t) r r' := by
  cases h with
  | ok hab => exact .ok ⟨hP _ _ rfl, hab⟩
  | error e s t => exact .error e s t

/-- What succeeds on the second side succeeds on the first one. -/
theorem exists_of_eq_ok {b : β} {t' : τ} (h : Paired A (x s) (y t)) (hy : y t = .ok b t') :
    ∃ a s', x s = .ok a s' ∧ A a s' b t' := by
  cases hx : x s with
  | ok a s' =>
    rw [hx, hy] at h
    cases h with
    | ok hab => exact ⟨a, s', rfl, hab⟩
  | error e s' =>
    rw [hx, hy] at h
    cases h

/-- What succeeds on the first side succeeds on the second one. -/
theorem exists_of_left {a : α} {s' : σ} (h : Paired A (x s) (y t)) (hx : x s = .ok a s') :
    ∃ b t', y t = .ok b t' ∧ A a s' b t' := by
  cases hy : y t with
  | ok b t' =>
    rw [hx, hy] at h
    cases h with
    | ok hab => exact ⟨b, t', rfl, hab⟩
  | error e t' =>
    rw [hx, hy] at h
    cases h

/-- A result that may be a fault, on both sides. -/
theorem ofExcept_bind {op : Except Fault α} {f : α → Action σ γ} {g : α → Action τ δ}
    {s : σ} {t : τ} (hfg : ∀ a, op = .ok a → Paired B (f a s) (g a t)) :
    Paired B ((Action.ofExcept op >>= f) s) ((Action.ofExcept op >>= g) t) := by
  cases op with
  | ok a => exact hfg a rfl
  | error fault => exact .error fault s t

end Paired

end NovelScript.Action
