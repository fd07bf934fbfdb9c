import NovelScript.Proofs.Machine.Upcoming
import NovelScript.Proofs.Records.Alike

/-!
# Steps of machines that tell the same story

A step marks what it comes to as read, and for the rest it is plain. So it ends alike on linked
machines, up to whether text was read before, and up to marks that cannot be written.
-/

namespace NovelScript

namespace Event

/-- The event with another answer to whether its text was read before. -/
def withSeen (seen : Bool) : Event → Event
  | text run => text { run with seen }
  | event => event

/-- The events are the same, up to whether their text was read before. -/
def Alike (E : Bool → Bool → Prop) (first second : Event) : Prop :=
  ∃ (event : Event) (s t : Bool), first = event.withSeen s ∧ second = event.withSeen t ∧ E s t

/-- An event is like itself. -/
theorem Alike.refl {E : Bool → Bool → Prop} (hE : ∀ b, E b b) (event : Event) :
    Alike E event event := by
  obtain ⟨s, hs⟩ : ∃ s, event = event.withSeen s := by
    cases event with
    | text run => exact ⟨run.seen, rfl⟩
    | continued | hostCommand | restarted | ended => exact ⟨false, rfl⟩
  exact ⟨event, s, s, hs, hs, hE s⟩

end Event

namespace Records

/-- An address is marked as reached, if marks are kept. -/
def mark (addr : Nat) (r : Records) : Records :=
  { r with marks := if r.settings.trackRead then r.marks.mark addr else r.marks }

/-- Whether an address is known to have been reached. -/
def seen (addr : Nat) (r : Records) : Bool :=
  r.settings.trackRead && r.marks.isMarked addr

end Records

namespace Machine

variable {ε α β : Type} {S : Records → Records → Prop} {parting : Prop} {E : Bool → Bool → Prop}
  {m n : Machine}

/-! ## Plain parts of steps -/

private theorem plain_endStatement : Plain endStatement := by
  refine .get (fun _ _ => rfl) fun m => .join (plain_moveTo _) (plain_moveTo _) fun _ => ?_
  exact .ite (.warn _) (.pure ())

private theorem plain_restart : Plain restart :=
  .bind (.modify fun _ _ => rfl) fun _ => plain_jumpTo _

private theorem plain_finishProgram : Plain finishProgram :=
  .get (fun _ _ => rfl) fun _ => .ite (.pure ())
    (.bind (.modify fun _ _ => rfl) fun _ => plain_savePersistent)

/-- What a command asks for once its operands are read is plain. -/
theorem plain_complete (outcome : Outcome) : Plain (complete outcome) := by
  cases outcome with
  | advance => exact .bind plain_endStatement fun _ => .pure _
  | skipLine => exact .bind (.modify fun _ _ => rfl) fun _ => .pure _
  | stay => exact .pure _
  | restart => exact .bind plain_restart fun _ => .pure _
  | stop => exact .bind plain_finishProgram fun _ => .pure _

/-- Reads the next run of text. -/
def readDelivery : Run TextReader.Delivery := do
  let m ← get
  let setup : TextReader.Setup := { script := m.script, aliases := m.aliases, style := m.style }
  let (result, store) := TextReader.read setup m.store m.pc m.narrow
  set { m with store }
  Action.ofExcept result

/-- Goes on after a run of text, and hands it over. -/
def deliver (seen : Bool) (delivery : TextReader.Delivery) : Run Event := do
  warnAll delivery.warnings
  modify fun m => { m with pc := delivery.next, narrow := delivery.narrow }
  let run := { delivery.run with seen }
  if run.stop = .endOfLine then
    modify fun m => { m with inText := false }
    if run.pieces.isEmpty then return .continued
    else return .text run
  else
    match (← get).textHook with
    | none => return .text run
    | some label =>
      let bookmark : Bookmark :=
        { addr := delivery.next, narrow := delivery.narrow, stop := run.stop }
      pushFrame (.call (.ofBookmark .textGosub bookmark))
      jumpTo label
      return .text { run with handled := true }

/-- Marking an address as read tells whether it was marked before, and changes the records only. -/
theorem markRead_eq (m : Machine) (addr : Nat) :
    markRead addr m = .ok (m.records.seen addr) (m.withRecords (m.records.mark addr)) := by
  have hseen : m.records.seen addr = (m.settings.trackRead && m.marks.isMarked addr) := rfl
  have hmark : m.records.mark addr =
      { m.records with marks := if m.settings.trackRead then m.marks.mark addr else m.marks } := rfl
  rw [hseen, hmark]
  show (if m.settings.trackRead then _ else _ : Run Bool) m = _
  cases m.settings.trackRead <;> rfl

/-- Reading text marks its address, and tells whether it was marked before. -/
theorem readText_eq (m : Machine) : readText m =
    (readDelivery >>= deliver (m.records.seen m.pc)) (m.withRecords (m.records.mark m.pc)) := by
  have hmark := markRead_eq m m.pc
  rw [readText, Action.get_bind, Action.bind_of_ok hmark]
  rfl

/-- Reading a run of text is plain. -/
theorem plain_readDelivery : Plain readDelivery := by
  refine .apart fun m r => ?_
  let read := TextReader.read { script := m.script, aliases := m.aliases, style := m.style }
    m.store m.pc m.narrow
  show Action.ofExcept read.1 { m.withRecords r with store := read.2 } =
    resultWith r (Action.ofExcept read.1 { m with store := read.2 })
  cases read.1 <;> rfl

/-- So is handing it over, once it is known whether it was read before. -/
theorem plain_deliver (seen : Bool) (delivery : TextReader.Delivery) :
    Plain (deliver seen delivery) := by
  refine .bind (plain_warnAll _) fun _ => .bind (.modify fun _ _ => rfl) fun _ => .ite ?_ ?_
  · exact .bind (.modify fun _ _ => rfl) fun _ => .ite (.pure _) (.pure _)
  · refine .get (fun _ _ => rfl) fun m => ?_
    cases m.textHook with
    | none => exact .pure _
    | some label => exact plain_pushFrame_jumpTo _ _ _

/-- Whether the run was read before is only handed on. -/
theorem deliver_eq (seen : Bool) (delivery : TextReader.Delivery) :
    deliver seen delivery = do return (← deliver false delivery).withSeen seen := by
  simp only [deliver, bind_assoc]
  refine bind_congr fun _ => bind_congr fun _ => ?_
  by_cases hstop : delivery.run.stop = .endOfLine
  · rw [if_pos hstop, if_pos hstop, bind_assoc]
    refine bind_congr fun _ => ?_
    by_cases hempty : delivery.run.pieces.isEmpty
    · rw [if_pos hempty, if_pos hempty]
      rfl
    · rw [if_neg hempty, if_neg hempty]
      rfl
  · rw [if_neg hstop, if_neg hstop, bind_assoc]
    refine bind_congr fun m => ?_
    cases m.textHook with
    | none => rfl
    | some label => simp only [bind_assoc, pure_bind]; rfl

/-- Carries out a statement that was read. -/
def carryOut (statement : Statement) : Run Event := do
  warnAll statement.warnings
  match statement.kind with
  | .endOfScript =>
    finishProgram
    return .ended
  | .comment | .endOfLine =>
    moveTo statement.next
    return .continued
  | .sectionMarker =>
    modify fun m => { m with lastSection := some statement.next, pc := statement.next }
    return .continued
  | .label name =>
    modify fun m => { m with labelLog := m.labelLog.record name, pc := statement.next }
    return .continued
  | .pretextTag tag => runTag statement.start statement.next tag
  | .command word => runCommand statement.start statement.next word
  | .text =>
    modify fun m => { m with pc := statement.start, inText := true }
    readText

/-- The place of the statement before is forgotten. -/
theorem runStatement_eq (m : Machine) : runStatement m =
    carryOut (m.script.statementAt m.pc m.pretextHook.isSome) { m with
      statementStart := (m.script.statementAt m.pc m.pretextHook.isSome).start
      statementName := none } := rfl

/-! ## Marks -/

/-- The relation is also kept by marks, and what they say of text is in relation `E`. -/
structure Tracking (S : Records → Records → Prop) (parting : Prop) (E : Bool → Bool → Prop) : Prop
    extends Steady S parting where
  /-- What is the same is in relation. -/
  refl : ∀ b, E b b
  /-- Both know of text that was read before, up to `E`. -/
  seen : ∀ {r t}, S r t → ∀ addr, E (r.seen addr) (t.seen addr)
  /-- An address may be marked in both. -/
  mark : ∀ {r t}, S r t → ∀ addr, S (r.mark addr) (t.mark addr)

private theorem alike_discard_markRead (hS : Tracking S parting E) (h : Linked S m n) (addr : Nat) :
    Alike S Eq ((discard (markRead addr) : Run Unit) m)
      ((discard (markRead addr) : Run Unit) n) := by
  rw [Action.discard_of_ok (markRead_eq m addr), Action.discard_of_ok (markRead_eq n addr)]
  exact .ok rfl (h.update fun t hSt => hS.mark hSt addr)

/-! ## Steps -/

/-- The action ends nearly alike on linked machines. -/
def Nearly (W : ε → Prop) (S : Records → Records → Prop) (A : α → α → Prop)
    (x : EStateM ε Machine α) : Prop :=
  ∀ ⦃m n⦄, Linked S m n → Near W S A (x m) (x n)

namespace Nearly

variable {W : ε → Prop} {A : α → α → Prop} {B : β → β → Prop} {x y : EStateM ε Machine α}
  {f : α → EStateM ε Machine β} {c : Prop} [Decidable c]

/-- One action after another. -/
protected theorem bind (hx : Nearly W S Eq x) (hf : ∀ a, Nearly W S B (f a)) :
    Nearly W S B (x >>= f) := by
  refine fun m n h => (hx h).bind fun a b m' n' hab hlinked => ?_
  subst hab
  exact hf a hlinked

/-- Looking at the story. -/
protected theorem get {f : Machine → EStateM ε Machine α} (hsame : ∀ m r, f (m.withRecords r) = f m)
    (hf : ∀ m, Nearly W S A (f m)) : Nearly W S A (MonadState.get >>= f) := by
  rintro m n ⟨t, rfl, hSt⟩
  show Near W S A (f m m) (f (m.withRecords t) (m.withRecords t))
  rw [hsame]
  exact hf m ⟨t, rfl, hSt⟩

/-- Changing the story. -/
protected theorem modify {f : Machine → Machine}
    (hf : ∀ m r, f (m.withRecords r) = (f m).withRecords r) :
    Nearly W S Eq (modify f : EStateM ε Machine PUnit) :=
  fun _ _ h => .alike (.ok rfl (h.change hf))

/-- Each of two ways is nearly the same if both are. -/
protected theorem ite (hx : Nearly W S A x) (hy : Nearly W S A y) :
    Nearly W S A (if c then x else y) := by
  split
  · exact hx
  · exact hy

/-- What is given may be put in another form. -/
theorem map {g : α → β} (hx : Nearly W S A x) (hg : ∀ a b, A a b → B (g a) (g b)) :
    Nearly W S B (x >>= fun a => pure (g a)) :=
  fun _ _ h => (hx h).bind fun a b _ _ hab hlinked => .alike (.ok (hg a b hab) hlinked)

/-- Both give the same at once. -/
protected theorem pure {a : α} (ha : A a a) : Nearly W S A (pure a : EStateM ε Machine α) :=
  fun _ _ h => .alike (.ok ha h)

/-- Both fail for the same reason. -/
protected theorem throw (e : ε) : Nearly W S A (throw e : EStateM ε Machine α) :=
  fun _ _ h => .alike (.error h)

/-- Plain actions end nearly alike. -/
theorem plain (hS : Steady S parting) {x : Run α} (hx : Plain x) (hA : ∀ a, A a a) :
    Nearly (Unmarked parting) S A x := by
  intro m n h
  have hnear := hx.near hS h
  generalize x m = first at hnear ⊢
  generalize x n = second at hnear ⊢
  cases hnear with
  | alike halike =>
    cases halike with
    | ok hab hlinked => exact .alike (.ok (hab ▸ hA _) hlinked)
    | error hlinked => exact .alike (.error hlinked)
  | first he => exact .first he _ _
  | second he => exact .second he _ _

end Nearly

section

variable (hS : Tracking S parting E)

include hS

/-- After a plain action. -/
theorem nearly_after {x : Run α} {f : α → Run β} {B : β → β → Prop} (hx : Plain x)
    (hf : ∀ a, Nearly (Unmarked parting) S B (f a)) : Nearly (Unmarked parting) S B (x >>= f) :=
  .bind (.plain hS.toSteady hx fun _ => rfl) hf

/-- After an address was marked. -/
theorem nearly_marked {W : Fault → Prop} {f : Unit → Run β} {B : β → β → Prop} (addr : Nat)
    (hf : Nearly W S B (f ())) : Nearly W S B (discard (markRead addr) >>= f) :=
  .bind (fun _ _ h => .alike (alike_discard_markRead hS h addr)) fun _ => hf

/-- What follows a command is nearly the same on linked machines. -/
theorem nearly_complete (outcome : Outcome) :
    Nearly (Unmarked parting) S (Event.Alike E) (complete outcome) :=
  .plain hS.toSteady (plain_complete outcome) (.refl hS.refl)

/-- Reading text gives the same, up to whether the text was read before. -/
theorem nearly_readText : Nearly (Unmarked parting) S (Event.Alike E) readText := by
  intro m n h
  have hseen : E (m.records.seen m.pc) (n.records.seen n.pc) := by
    obtain ⟨t, rfl, hSt⟩ := h
    exact hS.seen hSt m.pc
  have hmarked : Linked S (m.withRecords (m.records.mark m.pc))
      (n.withRecords (n.records.mark n.pc)) := by
    rw [h.pc]
    exact h.update fun t hSt => hS.mark hSt m.pc
  rw [readText_eq, readText_eq]
  refine (plain_readDelivery.near hS.toSteady hmarked).bind ?_
  rintro delivery _ m' n' rfl hlinked
  rw [deliver_eq (m.records.seen m.pc), deliver_eq (n.records.seen n.pc)]
  refine ((plain_deliver false delivery).near hS.toSteady hlinked).bind ?_
  rintro event _ m' n' rfl hlinked
  exact .alike (.ok ⟨event, _, _, rfl, rfl, hseen⟩ hlinked)

private theorem nearly_runCommand (start operands : Nat) (word : CommandWord) :
    Nearly (Unmarked parting) S (Event.Alike E) (runCommand start operands word) := by
  refine .bind (.modify fun _ _ => rfl) fun _ => .get (fun _ _ => rfl) fun m => ?_
  cases m.commands.resolve word with
  | builtin command =>
    refine nearly_marked hS start (nearly_after hS (plain_moveTo _) fun _ => ?_)
    exact nearly_after hS (plain_execute command) fun outcome => nearly_complete hS outcome
  | subroutine label =>
    refine nearly_marked hS start (.get (fun _ _ => rfl) fun m => ?_)
    exact .plain hS.toSteady (plain_pushFrame_jumpTo _ _ _) (.refl hS.refl)
  | host name =>
    refine nearly_marked hS start (.bind (.modify fun _ _ => rfl) fun _ => ?_)
    exact .pure (.refl hS.refl _)
  | unknown =>
    refine .ite (.throw _) (.bind (.modify fun _ _ => rfl) fun _ => ?_)
    exact nearly_readText hS

private theorem nearly_runTag (start next : Nat) (tag : Bytes) :
    Nearly (Unmarked parting) S (Event.Alike E) (runTag start next tag) := by
  refine nearly_marked hS start (.bind (.modify fun _ _ => rfl) fun _ => ?_)
  refine .get (fun _ _ => rfl) fun m => ?_
  cases m.pretextHook with
  | some label => exact .plain hS.toSteady (plain_pushFrame_jumpTo _ _ _) (.refl hS.refl)
  | none => exact .bind (.modify fun _ _ => rfl) fun _ => .pure (.refl hS.refl _)

private theorem nearly_carryOut (statement : Statement) :
    Nearly (Unmarked parting) S (Event.Alike E) (carryOut statement) := by
  refine nearly_after hS (plain_warnAll _) fun _ => ?_
  cases statement.kind with
  | endOfScript =>
    exact nearly_after hS plain_finishProgram fun _ => .pure (.refl hS.refl _)
  | comment | endOfLine =>
    exact nearly_after hS (plain_moveTo _) fun _ => .pure (.refl hS.refl _)
  | sectionMarker | label name =>
    exact .bind (.modify fun _ _ => rfl) fun _ => .pure (.refl hS.refl _)
  | pretextTag tag => exact nearly_runTag hS _ _ _
  | command word => exact nearly_runCommand hS _ _ _
  | text => exact .bind (.modify fun _ _ => rfl) fun _ => nearly_readText hS

/-- So is the execution of the next statement. -/
theorem nearly_runStatement : Nearly (Unmarked parting) S (Event.Alike E) runStatement := by
  rintro m _ ⟨t, rfl, hSt⟩
  rw [runStatement_eq, runStatement_eq]
  exact nearly_carryOut hS _ ⟨t, rfl, hSt⟩

end

end Machine

end NovelScript
