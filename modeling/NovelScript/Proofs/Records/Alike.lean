import NovelScript.Proofs.Records.Commands

/-!
# Machines that tell the same story

Two machines are linked if they differ in their records only, and the records are in some relation.
If the relation is steady, that is, if it is kept by the few ways in which plain actions treat
records, then a plain action does the same with both machines: it gives the same or fails alike, and
leaves machines that are linked again.

A relation may leave open what becomes of the marks when they are written to their file. Then the
system may refuse them to one of the machines only. There the two part: that machine fails, while
the other one goes on with the statement.
-/

namespace NovelScript.Machine

variable {ε α β : Type} {S : Records → Records → Prop} {m n : Machine}

/-- The machines differ in their records only, and these are in relation `S`. -/
def Linked (S : Records → Records → Prop) (m n : Machine) : Prop :=
  ∃ t, n = m.withRecords t ∧ S m.records t

/-- The relation is kept by what plain actions do to records. If the machines are not `parting`, the
marks are refused to both or to none. -/
structure Steady (S : Records → Records → Prop) (parting : Prop) : Prop where
  /-- Warnings are faults in both or in none. -/
  strict : ∀ {r t}, S r t → t.settings.strict = r.settings.strict
  /-- The same saves are found. -/
  saves : ∀ {r t}, S r t → r.saves.Agrees t.saves
  /-- Notices may be added to both. -/
  note : ∀ {r t}, S r t → ∀ count notices, S (r.note count notices) (t.note count notices)
  /-- A file may be written in both. -/
  write : ∀ {r t}, S r t → ∀ {name}, name ≠ marksFile → ∀ bytes,
    S (r.write name bytes) (t.write name bytes)
  /-- The marks may be written in both. -/
  writeMarks : ∀ {r t}, S r t → S r.writeMarks t.writeMarks
  /-- What becomes of them is the same. -/
  marksRefusal : ∀ {r t}, S r t → parting ∨ t.marksRefusal = r.marksRefusal

/-- Two runs ended alike: both gave something, related by `A`, or both failed for the same reason;
the machines that they left are linked. -/
inductive Alike (S : Records → Records → Prop) (A : α → α → Prop) :
    EStateM.Result ε Machine α → EStateM.Result ε Machine α → Prop where
  /-- Both gave something. -/
  | ok {a b : α} {m n : Machine} (hab : A a b) (h : Linked S m n) : Alike S A (.ok a m) (.ok b n)
  /-- Both failed. -/
  | error {e : ε} {m n : Machine} (h : Linked S m n) : Alike S A (.error e m) (.error e n)

/-- Two runs ended nearly alike: alike, or one of them failed with a failure in `W`. -/
inductive Near (W : ε → Prop) (S : Records → Records → Prop) (A : α → α → Prop) :
    EStateM.Result ε Machine α → EStateM.Result ε Machine α → Prop where
  /-- They ended alike. -/
  | alike {x y : EStateM.Result ε Machine α} (h : Alike S A x y) : Near W S A x y
  /-- The first one failed. -/
  | first {e : ε} (he : W e) (m : Machine) (y : EStateM.Result ε Machine α) :
    Near W S A (.error e m) y
  /-- The second one failed. -/
  | second {e : ε} (he : W e) (x : EStateM.Result ε Machine α) (n : Machine) :
    Near W S A x (.error e n)

/-- The machines are `parting`, and the fault is that the marks could not be written. -/
def Unmarked (parting : Prop) (fault : Fault) : Prop :=
  parting ∧ ∃ failure, fault = .unwritten marksFile failure

namespace Linked

/-- A machine is linked to itself if its records are related to themselves. -/
theorem refl (h : S m.records m.records) : Linked S m m :=
  ⟨m.records, rfl, h⟩

/-- A change of the story that is the same whatever the records are. -/
theorem change (h : Linked S m n) {f : Machine → Machine}
    (hf : ∀ m r, f (m.withRecords r) = (f m).withRecords r) : Linked S (f m) (f n) := by
  obtain ⟨t, rfl, hS⟩ := h
  have hrecords : (f m).records = m.records := by
    conv_lhs => rw [show f m = f (m.withRecords m.records) from rfl, hf]
    rfl
  exact ⟨t, hf m t, hrecords ▸ hS⟩

/-- A change of the records. -/
theorem update (h : Linked S m n) {g : Records → Records}
    (hg : ∀ t, S m.records t → S (g m.records) (g t)) :
    Linked S (m.withRecords (g m.records)) (n.withRecords (g n.records)) := by
  obtain ⟨t, rfl, hS⟩ := h
  exact ⟨g t, rfl, hg t hS⟩

/-- Linked machines are at the same address. -/
theorem pc (h : Linked S m n) : n.pc = m.pc := by
  obtain ⟨t, rfl, -⟩ := h
  rfl

private theorem saves {parting : Prop} (hS : Steady S parting) (h : Linked S m n) :
    m.saves.Agrees n.saves := by
  obtain ⟨t, rfl, hSt⟩ := h
  exact hS.saves hSt

end Linked

/-- Warnings and notices are added to the records. -/
theorem warn_eq (m : Machine) (warning : Warning) : warn warning m =
    if m.settings.strict then .error (.warning warning) m
    else .ok () (m.withRecords (m.records.note 1
      [.warning warning m.location.label m.location.line])) := by
  show (if m.settings.strict then _ else _ : Run Unit) m = _
  split <;> rfl

namespace Near

variable {W : ε → Prop} {A : α → α → Prop} {B : β → β → Prop}

/-- One action after another. -/
protected theorem bind {x y : EStateM ε Machine α} {f g : α → EStateM ε Machine β}
    (h : Near W S A (x m) (y n))
    (hfg : ∀ a b m' n', A a b → Linked S m' n' → Near W S B (f a m') (g b n')) :
    Near W S B ((x >>= f) m) ((y >>= g) n) := by
  generalize hx : x m = first at h
  generalize hy : y n = second at h
  cases h with
  | alike h =>
    cases h with
    | ok hab hlinked =>
      rw [Action.bind_of_ok hx, Action.bind_of_ok hy]
      exact hfg _ _ _ _ hab hlinked
    | error hlinked =>
      rw [Action.bind_of_error hx, Action.bind_of_error hy]
      exact .alike (.error hlinked)
  | first he =>
    rw [Action.bind_of_error hx]
    exact .first he _ _
  | second he =>
    rw [Action.bind_of_error hy]
    exact .second he _ _

end Near

/-- An action that neither reads nor changes the records leaves linked machines linked. -/
theorem alike_of_apart {x : EStateM ε Machine α}
    (h : ∀ m r, x (m.withRecords r) = resultWith r (x m)) (hlinked : Linked S m n) :
    Alike S Eq (x m) (x n) := by
  obtain ⟨t, rfl, hS⟩ := hlinked
  have hself : x m = resultWith m.records (x m) := h m m.records
  rw [h m t]
  cases hrun : x m with
  | ok a m' =>
    rw [hrun] at hself
    have hsame : m' = m'.withRecords m.records := (EStateM.Result.ok.inj hself).2
    exact .ok rfl ⟨t, rfl, hsame ▸ hS⟩
  | error e m' =>
    rw [hrun] at hself
    have hsame : m' = m'.withRecords m.records := (EStateM.Result.error.inj hself).2
    exact .error ⟨t, rfl, hsame ▸ hS⟩

/-- Coming back from another address leaves linked machines linked. -/
theorem near_atAddress {W : Fault → Prop} {x : Run α} (h : Linked S m n)
    (hx : ∀ {m n}, Linked S m n → Near W S Eq (x m) (x n)) (addr : Nat) :
    Near W S Eq (atAddress addr x m) (atAddress addr x n) := by
  have hthere := hx (h.change (f := fun m => { m with pc := addr }) fun _ _ => rfl)
  have hback : ∀ {m' n' : Machine}, Linked S m' n' →
      Linked S { m' with pc := m.pc } { n' with pc := n.pc } := by
    intro m' n' hlinked
    rw [h.pc]
    exact hlinked.change (f := fun m' => { m' with pc := m.pc }) fun _ _ => rfl
  simp only [atAddress]
  generalize x { m with pc := addr } = first at hthere ⊢
  generalize x { n with pc := addr } = second at hthere ⊢
  cases hthere with
  | alike halike =>
    cases halike with
    | ok hab hlinked => exact .alike (.ok (by rw [hab, hlinked.pc]) (hback hlinked))
    | error hlinked => exact .alike (.error (hback hlinked))
  | first he => exact .first he _ _
  | second he => exact .second he _ _

/-- A file other than that of the marks is written in both machines, or refused to both. -/
theorem alike_writeSaved {parting : Prop} (hS : Steady S parting) (h : Linked S m n) {name : String}
    (hname : name ≠ marksFile) (bytes : Bytes) :
    Alike S Eq (writeSaved name bytes m) (writeSaved name bytes n) := by
  have hrefusal : n.saves.refusals name 0 = m.saves.refusals name 0 :=
    congrFun ((h.saves hS).refusals name hname) 0
  have hlinked := h.update (g := Records.write name bytes) fun t hSt => hS.write hSt hname bytes
  rw [writeSaved_eq_records, writeSaved_eq_records, hrefusal]
  cases m.saves.refusals name 0 with
  | none => exact .ok rfl hlinked
  | some failure => exact .error hlinked

/-- The marks are treated alike, unless the machines are parting. -/
theorem near_writeMarks {parting : Prop} (hS : Steady S parting) (h : Linked S m n) :
    Near (Unmarked parting) S Eq (writeMarks m) (writeMarks n) := by
  have hlinked := h.update (g := Records.writeMarks) fun t hSt => hS.writeMarks hSt
  have hmarks : parting ∨ n.records.marksRefusal = m.records.marksRefusal := by
    obtain ⟨t, rfl, hSt⟩ := h
    exact hS.marksRefusal hSt
  rw [writeMarks_eq, writeMarks_eq]
  cases hfirst : m.records.marksRefusal with
  | none =>
    cases hsecond : n.records.marksRefusal with
    | none => exact .alike (.ok rfl hlinked)
    | some failure =>
      have hparting : parting := hmarks.resolve_right (by simp [hfirst, hsecond])
      exact .second ⟨hparting, failure, rfl⟩ _ _
  | some failure =>
    rcases hmarks with hparting | hsame
    · exact .first ⟨hparting, failure, rfl⟩ _ _
    · rw [hsame, hfirst]
      exact .alike (.error hlinked)

/-- **A plain action does the same with machines that tell the same story**, but for marks that are
refused to one of them. -/
theorem Plain.near {parting : Prop} (hS : Steady S parting) {x : Run α} (hx : Plain x)
    (h : Linked S m n) : Near (Unmarked parting) S Eq (x m) (x n) := by
  -- One case for each way in which records are treated.
  induction hx generalizing m n with
  | apart hx => exact .alike (alike_of_apart hx h)
  | bind hx hf ihx ihf =>
    refine (ihx h).bind fun a b m' n' hab hlinked => ?_
    subst hab
    exact ihf a hlinked
  | @look _ f hsame hf ih =>
    obtain ⟨t, rfl, hSt⟩ := h
    show Near _ S Eq (f m m) (f (m.withRecords t) (m.withRecords t))
    rw [hsame m t (hS.saves hSt)]
    exact ih m ⟨t, rfl, hSt⟩
  | warn warning =>
    obtain ⟨t, rfl, hSt⟩ := h
    have hstrict : (m.withRecords t).settings.strict = m.settings.strict := hS.strict hSt
    rw [warn_eq, warn_eq, hstrict]
    split
    · exact .alike (.error ⟨t, rfl, hSt⟩)
    · exact .alike (.ok rfl ⟨_, rfl, hS.note hSt 1 _⟩)
  | note notices =>
    exact .alike (.ok rfl (h.update fun t hSt => hS.note hSt 0 notices))
  | write hname bytes => exact .alike (alike_writeSaved hS h hname bytes)
  | writeMarks => exact near_writeMarks hS h
  | atAddress hx addr ih => exact near_atAddress h ih addr

/-! ## What plain actions do not touch -/

/-- A property of the records that is kept by what plain actions do to them. -/
structure Lasting (P : Records → Prop) : Prop where
  /-- Notices may be added. -/
  note : ∀ {r}, P r → ∀ count notices, P (r.note count notices)
  /-- Files may be written. -/
  write : ∀ {r}, P r → ∀ name bytes, P (r.write name bytes)

variable {P : Records → Prop}

private theorem Lasting.writeMarks (hP : Lasting P) {r : Records} (h : P r) : P r.writeMarks := by
  unfold Records.writeMarks
  split
  · exact hP.write h _ _
  · exact h

/-- A machine does not part from itself. -/
theorem Lasting.steady (hP : Lasting P) : Steady (fun r t => t = r ∧ P r) False where
  strict h := by rw [h.1]
  saves h := by
    rw [h.1]
    exact .refl _
  note h count notices := ⟨by rw [h.1], hP.note h.2 count notices⟩
  write h _ _ bytes := ⟨by rw [h.1], hP.write h.2 _ bytes⟩
  writeMarks h := ⟨by rw [h.1], hP.writeMarks h.2⟩
  marksRefusal h := .inr (by rw [h.1])

/-- What is left by a run that ended like itself. -/
theorem Lasting.of_near {W : ε → Prop} (hW : ∀ e, ¬ W e) {A : α → α → Prop}
    {x : EStateM ε Machine α} (h : Near W (fun r t => t = r ∧ P r) A (x m) (x m)) :
    P (Action.after x m).records := by
  cases hrun : x m with
  | ok a after =>
    rw [hrun] at h
    rw [Action.after_of_ok hrun]
    cases h with
    | alike h =>
      cases h with
      | ok _ hlinked =>
        obtain ⟨t, -, -, hlast⟩ := hlinked
        exact hlast
  | error e after =>
    rw [hrun] at h
    rw [Action.after_of_error hrun]
    cases h with
    | alike h =>
      cases h with
      | error hlinked =>
        obtain ⟨t, -, -, hlast⟩ := hlinked
        exact hlast
    | first he => exact absurd he (hW _)
    | second he => exact absurd he (hW _)

/-- Such a property is kept by plain actions: they do with a machine what they do with itself. -/
theorem Plain.keeps (hP : Lasting P) {x : Run α} (hx : Plain x) :
    Action.Keeps (fun m => P m.records) x := fun _ hm =>
  Lasting.of_near (fun _ h => h.1) (hx.near hP.steady (.refl ⟨rfl, hm⟩))

end NovelScript.Machine
