import NovelScript.Proofs.Records.Steps

/-!
# Read-tracking does not influence the story

A host cannot tell machines apart that tell the same story, other than by what they say about text
that was read before. So it makes no difference for the story which text is marked as read, and
whether marks are kept at all.

The one exception is where the file of the marks cannot be written: on a full or protected disk, in
a folder that does not exist, or where something else has its name. The machine that should write it
tells so and stops in the middle of its statement, on purpose, while the other one goes on.
-/

namespace NovelScript

namespace Machine

variable {ε α β : Type} {S : Records → Records → Prop} {parting : Prop} {E : Bool → Bool → Prop}
  {m n : Machine}

/-! ## Failures and their places -/

/-- The machines are `parting`, and the failure is that the marks could not be written. -/
def Failure.Unmarked (parting : Prop) (failure : Failure) : Prop :=
  Machine.Unmarked parting failure.fault

/-- The action, with a place for its failures. -/
def told (place : Machine → Option Location) (x : Run α) : Located α := fun m =>
  match x m with
  | .ok a after => .ok a after
  | .error fault after => .error { fault, location := place after } after

/-- Failures are told alike, if the place that is told is part of the story. -/
theorem Nearly.told {A : α → α → Prop} {x : Run α} (place : Machine → Option Location)
    (hplace : ∀ m r, place (m.withRecords r) = place m) (hx : Nearly (Unmarked parting) S A x) :
    Nearly (Failure.Unmarked parting) S A (told place x) := by
  intro m n hlinked
  have hnear := hx hlinked
  simp only [Machine.told]
  generalize x m = first at hnear ⊢
  generalize x n = second at hnear ⊢
  cases hnear with
  | alike h =>
    cases h with
    | ok hab hlinked => exact .alike (.ok hab hlinked)
    | error hlinked =>
      obtain ⟨t, rfl, hSt⟩ := hlinked
      dsimp only
      rw [hplace]
      exact .alike (.error ⟨t, rfl, hSt⟩)
  | @first fault he after =>
    have htold : Failure.Unmarked parting { fault, location := place after } := he
    exact .first htold _ _
  | @second fault he _ after =>
    have htold : Failure.Unmarked parting { fault, location := place after } := he
    exact .second htold _ _

private theorem Nearly.located {A : α → α → Prop} {x : Run α}
    (hx : Nearly (Unmarked parting) S A x) : Nearly (Failure.Unmarked parting) S A (located x) :=
  hx.told (fun after => some after.location) fun _ _ => rfl

private theorem Nearly.unlocated {A : α → α → Prop} {x : Run α}
    (hx : Nearly (Unmarked parting) S A x) : Nearly (Failure.Unmarked parting) S A (unlocated x) :=
  hx.told (fun _ => none) fun _ _ => rfl

/-! ## Calls of the host -/

namespace Reply

/-- The reply with another answer to whether its text was read before. -/
def withSeen (seen : Bool) : Reply → Reply
  | event e => event (e.withSeen seen)
  | reply => reply

/-- The replies are the same, up to whether their text was read before. -/
def Alike (E : Bool → Bool → Prop) (first second : Reply) : Prop :=
  ∃ (reply : Reply) (s t : Bool), first = reply.withSeen s ∧ second = reply.withSeen t ∧ E s t

private theorem Alike.event {first second : Event} (h : first.Alike E second) :
    Alike E (.event first) (.event second) := by
  obtain ⟨event, s, t, rfl, rfl, hE⟩ := h
  exact ⟨.event event, s, t, rfl, rfl, hE⟩

end Reply

section

variable (hS : Tracking S parting E)

include hS

private theorem nearly_finishCommand (outcome : Outcome) :
    Nearly (Failure.Unmarked parting) S (Event.Alike E) (finishCommand outcome) := by
  refine .get (fun _ _ => rfl) fun m => .ite (.bind (.modify fun _ _ => rfl) fun _ => ?_) (.throw _)
  exact (nearly_complete hS outcome).located

private theorem nearly_step : Nearly (Failure.Unmarked parting) S (Event.Alike E) step := by
  have hrest : Nearly (Failure.Unmarked parting) S (Event.Alike E) stepSettled := by
    refine .get (fun _ _ => rfl) fun m => .ite (.pure (.refl hS.refl _)) (.ite ?_ ?_)
    · exact (nearly_readText hS).located
    · exact (nearly_runStatement hS).located
  have hfinish : Nearly (Failure.Unmarked parting) S Eq
      (discard (finishCommand .advance) : Located Unit) :=
    (nearly_finishCommand hS .advance).map fun _ _ _ => rfl
  exact .get (fun _ _ => rfl) fun m => .ite (.bind hfinish fun _ => hrest) hrest

/-- **Every call of the host has nearly the same answer on linked machines and leaves them
linked.** -/
theorem nearly_perform (call : HostCall) :
    Nearly (Failure.Unmarked parting) S (Reply.Alike E) call.perform := by
  have hsame : ∀ {reply : Reply}, (∀ s, reply.withSeen s = reply) → reply.Alike E reply :=
    fun h => ⟨_, false, false, (h false).symm, (h false).symm, hS.refl false⟩
  have hread : ∀ {α : Type} {x : Run α} {f : α → Reply}, Plain x → (∀ a s, (f a).withSeen s = f a) →
      Nearly (Failure.Unmarked parting) S (Reply.Alike E) (do return f (← unlocated x)) := by
    intro α x f hx hf
    have hnear : Nearly (Unmarked parting) S Eq x := .plain hS.toSteady hx fun _ => rfl
    exact hnear.unlocated.map fun a b hab => hab ▸ hsame (hf a)
  have hchange : ∀ {f : Machine → Machine}, (∀ m r, f (m.withRecords r) = (f m).withRecords r) →
      Nearly (Failure.Unmarked parting) S (Reply.Alike E) (do
        modify f
        return Reply.done) := fun hf =>
    .bind (.modify hf) fun _ => .pure (hsame fun _ => rfl)
  cases call with
  | step => exact (nearly_step hS).map fun _ _ => .event
  | finish outcome => exact (nearly_finishCommand hS outcome).map fun _ _ => .event
  | readInt | readStr | readLabel | readVarRef => exact hread (plain_operand _) fun _ _ => rfl
  | skipOperands | registerHost name | recordFile name => exact hchange fun _ _ => rfl
  | eatKeyword word => exact hread (plain_eatKeyword _) fun _ _ => rfl
  | eatToken token => exact hread (plain_eatToken _) fun _ _ => rfl
  | startAt name => exact hread (plain_jumpTo _) fun _ _ => rfl
  | edit change => exact hread (plain_updateStore _) fun _ _ => rfl
  | savePersistent => exact hread plain_savePersistent fun _ _ => rfl
  | saveSlot slot resume description => exact hread (plain_saveSlot _ _ _) fun _ _ => rfl
  | loadSlot slot => exact hread (plain_loadSlot _) fun _ _ => rfl
  | restore save => exact hread (plain_resume _) fun _ _ => rfl

end

/-- The answers are the same, up to whether their text was read before. -/
inductive Answer.Alike (E : Bool → Bool → Prop) : Answer → Answer → Prop where
  /-- There are replies. -/
  | ok {first second : Reply} (h : first.Alike E second) : Answer.Alike E (.ok first) (.ok second)
  /-- Both are the same failure. -/
  | error (failure : Failure) : Answer.Alike E (.error failure) (.error failure)

/-- The answer is that the marks could not be written. -/
def Answer.Unmarked (answer : Answer) : Prop :=
  ∃ failure location, answer = .error { fault := .unwritten marksFile failure, location }

/-- **A call of the host has the same answer on linked machines and leaves them linked**, up to
whether text was read before. Only machines that are parting may answer otherwise, where the marks
cannot be written. -/
theorem serve_linked (hS : Tracking S parting E) (h : Linked S m n) (call : HostCall) :
    (Linked S (m.serve call).2 (n.serve call).2 ∧
      Answer.Alike E (m.serve call).1 (n.serve call).1) ∨
    parting ∧ (Answer.Unmarked (m.serve call).1 ∨ Answer.Unmarked (n.serve call).1) := by
  have hnear := nearly_perform hS call h
  simp only [serve]
  generalize call.perform m = first at hnear ⊢
  generalize call.perform n = second at hnear ⊢
  cases hnear with
  | alike halike =>
    cases halike with
    | ok hab hlinked => exact .inl ⟨hlinked, .ok hab⟩
    | error hlinked => exact .inl ⟨hlinked, .error _⟩
  | @first failure he =>
    obtain ⟨fault, location⟩ := failure
    obtain ⟨hparting, why, rfl : fault = _⟩ := he
    exact .inr ⟨hparting, .inl ⟨why, location, rfl⟩⟩
  | @second failure he =>
    obtain ⟨fault, location⟩ := failure
    obtain ⟨hparting, why, rfl : fault = _⟩ := he
    exact .inr ⟨hparting, .inr ⟨why, location, rfl⟩⟩

/-! ## What lasts -/

/-- A property of the records that neither plain actions nor marks touch lasts. -/
theorem Lasting.serve {P : Records → Prop} (hP : Lasting P)
    (hmark : ∀ {r}, P r → ∀ addr, P (r.mark addr)) (hm : P m.records) (call : HostCall) :
    P (m.serve call).2.records := by
  have htracking : Tracking (fun r t => t = r ∧ P r) False Eq :=
    { hP.steady with
      refl := fun _ => rfl
      seen := fun h _ => by rw [h.1]
      mark := fun h addr => ⟨by rw [h.1], hmark h.2 addr⟩ }
  have hserve := serve_linked htracking (.refl ⟨rfl, hm⟩) call
  obtain ⟨⟨t, -, -, hlast⟩, -⟩ := hserve.resolve_right fun h => h.1
  exact hlast

/-- The settings are those that the machine was loaded with. -/
theorem settings_serve (m : Machine) (call : HostCall) :
    (m.serve call).2.settings = m.settings := by
  have hlasting : Lasting fun r => r.settings = m.settings := ⟨fun h _ _ => h, fun h _ _ => h⟩
  exact hlasting.serve (fun h _ => h) rfl call

end Machine

/-! ## A system that refuses nothing -/

/-- Records with a place for saves where nothing is refused are treated like themselves. -/
theorem Records.tracking_open :
    Machine.Tracking (fun r t => t = r ∧ r.saves.Open) False Eq where
  strict := by
    rintro r _ ⟨rfl, -⟩
    rfl
  saves := by
    rintro r _ ⟨rfl, -⟩
    exact .refl _
  note := by
    rintro r _ ⟨rfl, hopen⟩ count notices
    exact ⟨rfl, hopen⟩
  write := by
    rintro r _ ⟨rfl, hopen⟩ name - bytes
    exact ⟨rfl, hopen.attempt name bytes⟩
  writeMarks := by
    rintro r _ ⟨rfl, hopen⟩
    refine ⟨rfl, ?_⟩
    unfold writeMarks
    split
    · exact hopen.attempt _ _
    · exact hopen
  marksRefusal := by
    rintro r _ ⟨rfl, -⟩
    exact .inr rfl
  refl _ := rfl
  seen := by
    rintro r _ ⟨rfl, -⟩ addr
    rfl
  mark := by
    rintro r _ ⟨rfl, hopen⟩ addr
    exact ⟨rfl, hopen⟩

/-- A system that refuses nothing goes on refusing nothing, whatever the host calls. -/
theorem Machine.open_serveAll {m : Machine} (h : m.saves.Open) (calls : List HostCall) :
    (m.serveAll calls).2.saves.Open := by
  induction calls generalizing m with
  | nil => exact h
  | cons call calls ih =>
    rw [serveAll_cons]
    refine ih ?_
    have hserve := serve_linked Records.tracking_open (.refl ⟨rfl, h⟩) call
    obtain ⟨⟨t, -, -, hopen⟩, -⟩ := hserve.resolve_right fun hparting => hparting.1
    exact hopen

/-! ## Whatever is marked as read -/

namespace SaveArea

variable {saves others : SaveArea}

/-- An attempt to write the same file keeps the files the same. -/
theorem Agrees.attempt (h : saves.Agrees others) {name : String} (hname : name ≠ Machine.marksFile)
    (bytes : Bytes) : (saves.attempt name bytes).Agrees (others.attempt name bytes) where
  absent_iff := by rw [attempt_eq_absent_iff, attempt_eq_absent_iff, h.absent_iff]
  read other hother := by
    have hrefusal : others.refusals name 0 = saves.refusals name 0 :=
      congrFun (h.refusals name hname) 0
    by_cases hsame : other = name
    · subst hsame
      cases hrefused : saves.refusals other 0 with
      | some failure =>
        rw [read?_attempt_of_refused hrefused,
          read?_attempt_of_refused (hrefusal.trans hrefused), h.read other hother]
      | none =>
        by_cases habsent : saves = .absent
        · rw [habsent, h.absent_iff.mpr habsent]
        · rw [read?_attempt_self habsent hrefused, read?_attempt_self (mt h.absent_iff.mp habsent)
            (hrefusal.trans hrefused)]
    · rw [read?_attempt_of_ne _ _ hsame, read?_attempt_of_ne _ _ hsame, h.read other hother]
  refusals other hother := by
    funext k
    rw [refusals_attempt, refusals_attempt, h.refusals other hother]

/-- The file of the marks may be attempted in the first place. -/
theorem Agrees.attemptFirst (h : saves.Agrees others) (bytes : Bytes) :
    (saves.attempt Machine.marksFile bytes).Agrees others where
  absent_iff := by rw [attempt_eq_absent_iff, h.absent_iff]
  read other hother := by rw [read?_attempt_of_ne _ _ hother, h.read other hother]
  refusals other hother := by
    funext k
    rw [refusals_attempt, if_neg hother, h.refusals other hother]

/-- It may be attempted in the second place. -/
theorem Agrees.attemptSecond (h : saves.Agrees others) (bytes : Bytes) :
    saves.Agrees (others.attempt Machine.marksFile bytes) where
  absent_iff := by rw [attempt_eq_absent_iff, h.absent_iff]
  read other hother := by rw [read?_attempt_of_ne _ _ hother, h.read other hother]
  refusals other hother := by
    funext k
    rw [refusals_attempt, if_neg hother, h.refusals other hother]

/-- The files stay the same however marks are kept. -/
theorem Agrees.writeMarks {r t : Records} (h : r.saves.Agrees t.saves) :
    r.writeMarks.saves.Agrees t.writeMarks.saves := by
  unfold Records.writeMarks
  split_ifs
  · exact (h.attemptFirst _).attemptSecond _
  · exact h.attemptFirst _
  · exact h.attemptSecond _
  · exact h

end SaveArea

namespace Records

end Records

namespace Machine

variable {m n : Machine}

/-- The answer, as if its text had not been read before. -/
def Answer.unseen (answer : Answer) : Answer :=
  answer.map (Reply.withSeen false)

/-- Answers that are alike are the same, up to whether text was read before. -/
theorem Answer.Alike.unseen_eq {E : Bool → Bool → Prop} {first second : Answer}
    (h : Answer.Alike E first second) : Answer.unseen first = Answer.unseen second := by
  have hforget : ∀ (reply : Reply) (s : Bool),
      (reply.withSeen s).withSeen false = reply.withSeen false := by
    intro reply s
    rcases reply with _ | event | _ | _ | _ | _
    all_goals try rfl
    cases event <;> rfl
  cases h with
  | ok h =>
    obtain ⟨reply, s, t, rfl, rfl, -⟩ := h
    show Except.ok _ = Except.ok _
    rw [hforget, hforget]
  | error failure => rfl

/-- A page that is read again and again. -/
def pageScript : Script where
  bytes := (Bytes.ofText "*page\nHello\\\ngoto *page\n").toArray
  encoding := .utf8

/-- The machine at the start of this script. -/
def pageStart (tracked : Bool) : Machine :=
  fresh pageScript { variableSlots := 8, trackRead := tracked } (.folder {})

end Machine

end NovelScript
