import NovelScript.Machine.Step
import NovelScript.Proofs.Action

/-!
# Lenient and strict machines

A machine is lenient if it only counts warnings and does not cap its nesting. Tightening it makes
warnings faults and caps the nesting. An action on a lenient machine is followed by an action on
the tightened one if both do the same, as long as there is no warning and not too much is open at
the end. This file has the rules of that judgement, along the way actions are put together.

What is open is looked at only at the end of an action, so a call or loop that is opened must still
be open then. That is why openings need a rule of their own, and it is all that they need: nothing
closes a frame after one was opened by the same step.
-/

namespace NovelScript

namespace Nesting

/-- The same frames under a cap. -/
def withCap (cap : Nat) (nesting : Nesting) : Nesting :=
  { nesting with cap := some cap }

variable (cap : Nat) (nesting : Nesting)

/-- Returning from a call goes the same under another cap. -/
theorem popCall_withCap : (nesting.withCap cap).popCall =
    nesting.popCall.map fun (frame, rest) => (frame, rest.withCap cap) := by
  rcases nesting with ⟨_ | ⟨⟨frame⟩ | ⟨frame⟩, frames⟩, _⟩ <;> rfl

/-- Leaving a loop goes the same under another cap. -/
theorem popLoop_withCap : (nesting.withCap cap).popLoop =
    nesting.popLoop.map fun (frame, rest) => (frame, rest.withCap cap) := by
  rcases nesting with ⟨_ | ⟨⟨frame⟩ | ⟨frame⟩, frames⟩, _⟩ <;> rfl

/-- Finishing a loop goes the same under another cap. -/
theorem finishLoop_withCap :
    (nesting.withCap cap).finishLoop = nesting.finishLoop.map (withCap cap) := by
  rcases nesting with ⟨_ | ⟨⟨frame⟩ | ⟨frame⟩, frames⟩, _⟩ <;> rfl

/-- Unwinding to the handler goes the same under another cap. -/
theorem unwindHandler_withCap :
    (nesting.withCap cap).unwindHandler = nesting.unwindHandler.withCap cap := by
  show (if (nesting.innermost? .textGosub).isSome = true then _ else _) = _
  rw [unwindHandler]
  split <;> rfl

variable {nesting} {rest : Nesting}

/-- Returning from a call leaves the cap alone. -/
theorem cap_of_popCall {frame : CallFrame} (h : nesting.popCall = .ok (frame, rest)) :
    rest.cap = nesting.cap := by
  rcases nesting with ⟨_ | ⟨⟨frame⟩ | ⟨frame⟩, frames⟩, _⟩ <;> cases h
  rfl

/-- Leaving a loop leaves the cap alone. -/
theorem cap_of_popLoop {frame : LoopFrame} (h : nesting.popLoop = .ok (frame, rest)) :
    rest.cap = nesting.cap := by
  rcases nesting with ⟨_ | ⟨⟨frame⟩ | ⟨frame⟩, frames⟩, _⟩ <;> cases h
  rfl

/-- Finishing a loop leaves the cap alone. -/
theorem cap_of_finishLoop (h : nesting.finishLoop = .ok rest) : rest.cap = nesting.cap := by
  rcases nesting with ⟨_ | ⟨⟨frame⟩ | ⟨frame⟩, frames⟩, _⟩ <;> cases h
  rfl

/-- Unwinding to the handler leaves the cap alone. -/
theorem cap_unwindHandler : nesting.unwindHandler.cap = nesting.cap := by
  rw [unwindHandler]
  split <;> rfl

end Nesting

namespace Machine

variable {ε α β γ : Type} {cap : Nat} {m : Machine}

/-- The machine in strict mode and with a cap on its nesting. -/
def tighten (cap : Nat) (m : Machine) : Machine :=
  { m with
    settings := { m.settings with strict := true, maxNesting := some cap }
    nesting := m.nesting.withCap cap }

/-- Warnings are only counted, and nesting has no cap. -/
structure Lenient (m : Machine) : Prop where
  /-- Warnings are no faults. -/
  strict : m.settings.strict = false
  /-- There is no cap. -/
  cap : m.nesting.cap = none

/-- The result of an action, with the machine tightened. -/
def tightenResult (cap : Nat) : EStateM.Result ε Machine α → EStateM.Result ε Machine α
  | .ok a m => .ok a (m.tighten cap)
  | .error e m => .error e (m.tighten cap)

/-- Not more calls and loops are open than the cap admits. -/
def Within (cap : Nat) (m : Machine) : Prop :=
  m.nesting.depth ≤ cap

/-- From the lenient machine `m`, the action `x` goes where `y` goes from the tightened machine, as
long as `x` gives no warning and ends in a machine that satisfies `C`. -/
structure Follows (cap : Nat) (C : Machine → Prop) (x y : EStateM ε Machine α) (m : Machine) :
    Prop where
  /-- The machine stays lenient. -/
  lenient : (Action.after x m).Lenient
  /-- Warnings are not taken back. -/
  warnings : m.warningCount ≤ (Action.after x m).warningCount
  /-- Without a warning both do the same. -/
  agrees : (Action.after x m).warningCount = m.warningCount → C (Action.after x m) →
    y (m.tighten cap) = tightenResult cap (x m)

/-- The state `n` is the tightened form of the state `m'`, which differs from `m` in nothing that
strictness is about. -/
structure Matches (cap : Nat) (m m' n : Machine) : Prop where
  /-- It is the tightened form. -/
  tight : n = m'.tighten cap
  /-- Warnings are treated alike. -/
  strict : m'.settings.strict = m.settings.strict
  /-- The cap is the same. -/
  cap : m'.nesting.cap = m.nesting.cap
  /-- There was no warning. -/
  warnings : m'.warningCount = m.warningCount

namespace Follows

variable {C D : Machine → Prop} {x y : EStateM ε Machine α}

/-- What follows under a condition follows under a stronger one. -/
protected theorem mono (hCD : ∀ m, D m → C m) (h : Follows cap C x y m) : Follows cap D x y m :=
  ⟨h.lenient, h.warnings, fun hw hD => h.agrees hw (hCD _ hD)⟩

/-- Doing nothing follows itself. -/
protected theorem pure (hm : m.Lenient) (a : α) :
    Follows cap C (Pure.pure a : EStateM ε Machine α) (Pure.pure a) m :=
  ⟨hm, Nat.le_refl _, fun _ _ => rfl⟩

/-- A failure follows itself. -/
protected theorem throw (hm : m.Lenient) (e : ε) :
    Follows cap C (MonadExcept.throw e : EStateM ε Machine α) (MonadExcept.throw e) m :=
  ⟨hm, Nat.le_refl _, fun _ _ => rfl⟩

/-- Looking at the machine: from there on both sides know it. -/
protected theorem get {f g : Machine → EStateM ε Machine α}
    (h : Follows cap C (f m) (g (m.tighten cap)) m) :
    Follows cap C (MonadState.get >>= f) (MonadState.get >>= g) m :=
  ⟨h.lenient, h.warnings, h.agrees⟩

/-- Putting a machine in place follows putting the tightened one there. -/
protected theorem set (hm : m.Lenient) {m' n : Machine} (h : Matches cap m m' n) :
    Follows cap C (MonadState.set m' : EStateM ε Machine PUnit) (MonadState.set n) m := by
  refine ⟨⟨h.strict.trans hm.strict, h.cap.trans hm.cap⟩, Nat.le_of_eq h.warnings.symm, ?_⟩
  intro _ _
  rw [h.tight]
  rfl

/-- A change follows another that gives the tightened machine. -/
protected theorem modify (hm : m.Lenient) {f g : Machine → Machine}
    (h : Matches cap m (f m) (g (m.tighten cap))) :
    Follows cap C (modify f : EStateM ε Machine PUnit) (modify g) m :=
  ⟨⟨h.strict.trans hm.strict, h.cap.trans hm.cap⟩, Nat.le_of_eq h.warnings.symm, fun _ _ => by
    rw [show (modify g : EStateM ε Machine PUnit) (m.tighten cap) =
      .ok ⟨⟩ (g (m.tighten cap)) from rfl, h.tight]
    rfl⟩

/-- One action after another. The first one must meet its condition whenever the whole meets its
own. -/
theorem seq {f g : α → EStateM ε Machine β} (hx : Follows cap C x y m)
    (hCD : ∀ m', D m' → C m')
    (hf : ∀ a m', x m = .ok a m' → m'.Lenient →
      Follows cap D (f a) (g a) m' ∧ (D (Action.after (f a) m') → C m')) :
    Follows cap D (x >>= f) (y >>= g) m := by
  cases hrun : x m with
  | error e m' =>
    have hafter : Action.after (x >>= f) m = Action.after x m := by
      rw [Action.after_of_error (Action.bind_of_error hrun f), Action.after_of_error hrun]
    refine ⟨hafter ▸ hx.lenient, hafter ▸ hx.warnings, ?_⟩
    rw [hafter, Action.bind_of_error hrun]
    intro hw hD
    have hy := hx.agrees hw (hCD _ hD)
    rw [hrun] at hy
    exact Action.bind_of_error hy g
  | ok a m' =>
    have hm' : Action.after x m = m' := Action.after_of_ok hrun
    obtain ⟨hnext, hC⟩ := hf a m' hrun (hm' ▸ hx.lenient)
    have hafter : Action.after (x >>= f) m = Action.after (f a) m' := by
      rw [Action.after, Action.bind_of_ok hrun, Action.after]
    have hle : m.warningCount ≤ m'.warningCount := hm' ▸ hx.warnings
    refine ⟨hafter ▸ hnext.lenient, ?_, ?_⟩
    · rw [hafter]
      exact Nat.le_trans hle hnext.warnings
    · rw [hafter, Action.bind_of_ok hrun]
      intro hw hD
      -- Warnings only ever grow, so that neither part has given one.
      have hmiddle : m'.warningCount = m.warningCount :=
        Nat.le_antisymm (hw ▸ hnext.warnings) hle
      have hy := hx.agrees (hm'.symm ▸ hmiddle) (hm'.symm ▸ hC hD)
      rw [hrun] at hy
      rw [Action.bind_of_ok hy]
      exact hnext.agrees (hw.trans hmiddle.symm) hD

/-- One action after another that opens nothing. -/
protected theorem bind {f g : α → EStateM ε Machine β}
    (hx : Follows cap (fun _ => True) x y m)
    (hf : ∀ a m', x m = .ok a m' → m'.Lenient → Follows cap (fun _ => True) (f a) (g a) m') :
    Follows cap (fun _ => True) (x >>= f) (y >>= g) m :=
  hx.seq (fun _ h => h) fun a m' hrun hm' => ⟨hf a m' hrun hm', fun h => h⟩

/-- An operation that the tightened machine does in its own form. -/
theorem ofExcept {op : Except Fault β} {op' : Except Fault γ} (form : β → γ)
    (hop : op' = op.map form) (hm : m.Lenient) {f : β → Run α} {g : γ → Run α}
    (hf : ∀ b, op = .ok b → Follows cap C (f b) (g (form b)) m) :
    Follows cap C (Action.ofExcept op >>= f) (Action.ofExcept op' >>= g) m := by
  subst hop
  cases op with
  | ok b =>
    have h := hf b rfl
    exact ⟨h.lenient, h.warnings, h.agrees⟩
  | error fault => exact Follows.throw hm fault

end Follows

/-- An action that opens nothing: tightened or not, it does the same unless it gives a warning. -/
def Oblivious (cap : Nat) (x : EStateM ε Machine α) : Prop :=
  ∀ ⦃m : Machine⦄, m.Lenient → Follows cap (fun _ => True) x x m

/-- An action that may open calls and loops: tightened or not, it does the same unless it gives a
warning or leaves too much open. -/
def Capped (cap : Nat) (x : EStateM ε Machine α) : Prop :=
  ∀ ⦃m : Machine⦄, m.Lenient → Follows cap (Within cap) x x m

/-- A given number of calls and loops is open. -/
def AtDepth (depth : Nat) (m : Machine) : Prop :=
  m.nesting.depth = depth

/-- An action that leaves as much open as there was. -/
def Level (x : EStateM ε Machine α) : Prop :=
  ∀ depth, Action.Keeps (AtDepth depth) x

namespace Oblivious

variable {x : EStateM ε Machine α}

/-- Doing nothing opens nothing. -/
protected theorem pure (a : α) : Oblivious cap (Pure.pure a : EStateM ε Machine α) :=
  fun _ hm => Follows.pure hm a

/-- Failing opens nothing. -/
protected theorem throw (e : ε) : Oblivious cap (MonadExcept.throw e : EStateM ε Machine α) :=
  fun _ hm => Follows.throw hm e

/-- One action after another that opens nothing. -/
protected theorem bind {f : α → EStateM ε Machine β} (hx : Oblivious cap x)
    (hf : ∀ a, Oblivious cap (f a)) : Oblivious cap (x >>= f) := fun _ hm =>
  (hx hm).seq (fun _ h => h) fun a _ _ hm' => ⟨hf a hm', fun h => h⟩

/-- Looking at parts of the machine that tightening leaves alone. -/
protected theorem get {f : Machine → EStateM ε Machine α}
    (hsame : ∀ m, f (m.tighten cap) = f m) (hf : ∀ m, Oblivious cap (f m)) :
    Oblivious cap (MonadState.get >>= f) := fun m hm =>
  Follows.get ((hsame m).symm ▸ hf m hm)

/-- Changing parts of the machine that tightening leaves alone. -/
protected theorem modify {f : Machine → Machine}
    (h : ∀ m, Matches cap m (f m) (f (m.tighten cap))) :
    Oblivious cap (modify f : EStateM ε Machine PUnit) := fun m hm =>
  Follows.modify hm (h m)

/-- Two ways, neither of which opens anything. -/
protected theorem ite {c : Prop} [Decidable c] {y : EStateM ε Machine α} (hx : Oblivious cap x)
    (hy : Oblivious cap y) : Oblivious cap (if c then x else y) := by
  split
  · exact hx
  · exact hy

/-- After a failure nothing comes. -/
theorem fail {e : ε} {f : α → EStateM ε Machine β} :
    Oblivious cap (MonadExcept.throw e >>= f) := fun _ hm => Follows.throw hm e

/-- A check in front of the next action. -/
theorem guard {c : Prop} [Decidable c] {e : ε} {f : Unit → EStateM ε Machine α}
    (hf : Oblivious cap (f ())) : Oblivious cap (if c then MonadExcept.throw e >>= f else f ()) :=
  Oblivious.ite fail hf

/-- Something to do before the next action, if a condition holds. -/
theorem doIf {c : Prop} [Decidable c] {x : EStateM ε Machine Unit}
    {f : Unit → EStateM ε Machine β} (hx : Oblivious cap x) (hf : Oblivious cap (f ())) :
    Oblivious cap (if c then x >>= f else f ()) :=
  Oblivious.ite (Oblivious.bind hx fun _ => hf) hf

/-- Something to do before the next action, unless a condition holds. -/
theorem doUnless {c : Prop} [Decidable c] {x : EStateM ε Machine Unit}
    {f : Unit → EStateM ε Machine β} (hx : Oblivious cap x) (hf : Oblivious cap (f ())) :
    Oblivious cap (if c then f () else x >>= f) :=
  Oblivious.ite hf (Oblivious.bind hx fun _ => hf)

/-- Two ways to the next action. -/
theorem join {c : Prop} [Decidable c] {y : EStateM ε Machine α} {f : α → EStateM ε Machine β}
    (hx : Oblivious cap x) (hy : Oblivious cap y) (hf : ∀ a, Oblivious cap (f a)) :
    Oblivious cap (if c then x >>= f else y >>= f) :=
  Oblivious.ite (Oblivious.bind hx hf) (Oblivious.bind hy hf)

/-- What an action answers may be changed. -/
protected theorem map (f : α → β) (hx : Oblivious cap x) : Oblivious cap (f <$> x) := by
  rw [map_eq_pure_bind]
  exact Oblivious.bind hx fun a => Oblivious.pure (f a)

/-- What an action answers may be dropped. -/
protected theorem discard (hx : Oblivious cap x) : Oblivious cap (discard x) :=
  hx.map fun _ => ()

/-- An action that opens nothing leaves no more open than is allowed. -/
theorem capped (hx : Oblivious cap x) : Capped cap x := fun _ hm =>
  (hx hm).mono fun _ _ => trivial

end Oblivious

namespace Capped

variable {x : EStateM ε Machine α} {f : α → EStateM ε Machine β}

/-- After an action that opens nothing, anything may come. -/
theorem after (hx : Oblivious cap x) (hf : ∀ a, Capped cap (f a)) : Capped cap (x >>= f) :=
  fun _ hm => (hx hm).seq (fun _ _ => trivial) fun a _ _ hm' => ⟨hf a hm', fun _ => trivial⟩

/-- After an action that may open something, nothing is closed. -/
theorem before (hx : Capped cap x)
    (hf : ∀ m a m', x m = .ok a m' → Oblivious cap (f a) ∧ Level (f a)) :
    Capped cap (x >>= f) := by
  intro m hm
  refine (hx hm).seq (fun _ h => h) fun a m' hrun hm' => ?_
  obtain ⟨hnext, hlevel⟩ := hf m a m' hrun
  refine ⟨hnext.capped hm', fun h => ?_⟩
  have hdepth : (Action.after (f a) m').nesting.depth = m'.nesting.depth := hlevel _ rfl
  rwa [Within, hdepth] at h

/-- Looking at parts of the machine that tightening leaves alone. -/
protected theorem get {f : Machine → EStateM ε Machine α}
    (hsame : ∀ m, f (m.tighten cap) = f m) (hf : ∀ m, Capped cap (f m)) :
    Capped cap (MonadState.get >>= f) := fun m hm =>
  Follows.get ((hsame m).symm ▸ hf m hm)

/-- Two ways, each of which may open calls and loops. -/
protected theorem ite {c : Prop} [Decidable c] {y : EStateM ε Machine α} (hx : Capped cap x)
    (hy : Capped cap y) : Capped cap (if c then x else y) := by
  split
  · exact hx
  · exact hy

/-- A check in front of the next action. -/
theorem guard {c : Prop} [Decidable c] {e : ε} {f : Unit → EStateM ε Machine α}
    (hf : Capped cap (f ())) : Capped cap (if c then MonadExcept.throw e >>= f else f ()) :=
  Capped.ite Oblivious.fail.capped hf

/-- Two ways to the next action. -/
theorem join {c : Prop} [Decidable c] {y : EStateM ε Machine α}
    (hx : Oblivious cap x) (hy : Oblivious cap y) (hf : ∀ a, Capped cap (f a)) :
    Capped cap (if c then x >>= f else y >>= f) :=
  Capped.ite (Capped.after hx hf) (Capped.after hy hf)

end Capped

end Machine

end NovelScript
