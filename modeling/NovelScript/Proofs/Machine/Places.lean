import NovelScript.Proofs.Machine.Position
import NovelScript.Proofs.Machine.Reachable

/-!
# Places that errors and warnings tell

The place of an address is the last label at or before it and the number of newlines from there, or
no label and the number of newlines from the start of the script. Saved positions hold this place.
So do errors and warnings, except above the first label of a script: there they tell no label, but
count the newlines from the first label on, and so tell line 0 wherever they are.
-/

namespace NovelScript

namespace Script

open LabelTable

/-- The name and the line that tell where an address is. -/
inductive PlaceOf (script : Script) (addr : Nat) : String → Nat → Prop
  /-- It is at or below a label, the last one. -/
  | label {label : Label} (hmem : label ∈ (build script).1.labels) (hle : label.start ≤ addr)
      (hlast : ∀ other ∈ (build script).1.labels, other.start ≤ addr → other.start ≤ label.start) :
    PlaceOf script addr label.name (script.newlinesBetween label.start addr)
  /-- It is above all labels. -/
  | top (h : ∀ label ∈ (build script).1.labels, addr < label.start) :
    PlaceOf script addr "" (script.newlinesBetween 0 addr)

/-- There are labels, and the address is above all of them. -/
def AboveLabels (script : Script) (addr : Nat) : Prop :=
  (build script).1.labels ≠ [] ∧ ∀ label ∈ (build script).1.labels, addr < label.start

instance (script : Script) (addr : Nat) : Decidable (script.AboveLabels addr) :=
  inferInstanceAs (Decidable (_ ∧ _))

/-- The name and the line are the place of an address, except that above the labels the line is
0. -/
def Reports (script : Script) (addr : Nat) (name : String) (line : Nat) : Prop :=
  ∃ place, script.PlaceOf addr name place ∧ line = if script.AboveLabels addr then 0 else place

variable {script : Script} {addr : Nat}

/-- An address has one place. -/
theorem PlaceOf.unique {name name' : String} {line line' : Nat}
    (h : script.PlaceOf addr name line) (h' : script.PlaceOf addr name' line') :
    name = name' ∧ line = line' := by
  cases h with
  | label hmem hle hlast =>
    cases h' with
    | label hmem' hle' hlast' =>
      have hstart := Nat.le_antisymm (hlast' _ hmem hle) (hlast _ hmem' hle')
      rw [eq_of_key_eq (sorted_build script) hmem hmem' hstart]
      exact ⟨rfl, rfl⟩
    | top habove =>
      have hlt := habove _ hmem
      omega
  | top habove =>
    cases h' with
    | label hmem' hle' hlast' =>
      have hlt := habove _ hmem'
      omega
    | top => exact ⟨rfl, rfl⟩

/-- The place of an address goes by the label that is found for it. -/
theorem placeOf_enclosing? (script : Script) (addr : Nat) :
    script.PlaceOf addr (((build script).1.enclosing? addr).map Label.name |>.getD "")
      (script.newlinesBetween (((build script).1.enclosing? addr).map Label.start |>.getD 0) addr) := by
  cases hlabel : (build script).1.enclosing? addr with
  | some label =>
    obtain ⟨hmem, hle⟩ := mem_of_enclosing? hlabel
    exact .label hmem hle fun other => le_of_enclosing? (sorted_build script) hlabel
  | none => exact .top fun label => lt_of_enclosing?_eq_none hlabel

private theorem reports_reportAt (haddr : addr ≤ script.size) :
    script.Reports addr (script.reportAt addr).1 (script.reportAt addr).2 := by
  refine ⟨_, placeOf_enclosing? script addr, ?_⟩
  rw [reportAt]
  cases hlabel : (build script).1.enclosing? addr with
  | some label =>
    obtain ⟨hmem, hle⟩ := mem_of_enclosing? hlabel
    have hbelow : ¬ script.AboveLabels addr := by
      intro habove
      have hlt := habove.2 label hmem
      omega
    rw [if_neg hbelow]
    simp only [lineInLabel, (Option.filter_eq_some_iff.mp hlabel).1, Option.map_some,
      Option.getD_some]
    rw [Nat.max_eq_left hle, Nat.min_eq_left haddr]
  | none =>
    simp only [lineInLabel, Option.map_none, Option.getD_none]
    cases hfound : (build script).1.byAddress? addr with
    | none =>
      have hempty : ¬ script.AboveLabels addr := by
        rintro ⟨hsome, -⟩
        rw [byAddress?, Option.orElse_eq_orElse, Option.orElse_eq_or, Option.or_eq_none_iff] at hfound
        exact hsome (List.head?_eq_none_iff.mp hfound.2)
      rw [if_neg hempty]
      simp only [Option.map_none, Option.getD_none]
      rw [Nat.max_eq_left (Nat.zero_le _), Nat.min_eq_left haddr]
    | some first =>
      -- The newlines are counted from the first label, which is below the address.
      have hmem := mem_of_byAddress? hfound
      have habove : ∀ label ∈ (build script).1.labels, addr < label.start := fun _ =>
        lt_of_enclosing?_eq_none hlabel
      have hlt := habove first hmem
      rw [if_pos ⟨List.ne_nil_of_mem hmem, habove⟩]
      simp only [Option.map_some, Option.getD_some]
      apply newlinesBetween_of_le
      omega

end Script

/-- The journal has grown, and the warnings that came to it tell the places of some addresses. -/
def Logs.Tells (script : Script) (told : Nat → Prop) (first logs : Logs) : Prop :=
  ∃ notices, logs.journal = first.journal ++ notices ∧
    ∀ cause label line, Notice.warning cause label line ∈ notices →
      ∃ addr ≤ script.size, told addr ∧ script.Reports addr label line

namespace Logs.Tells

variable {script : Script} {told : Nat → Prop} {first logs next : Logs}

private theorem refl : Tells script told first first :=
  ⟨[], (List.append_nil _).symm, nofun⟩

private theorem step (h : Tells script told first logs) (hstep : Logs.Step script told logs next) :
    Tells script told first next := by
  obtain ⟨notices, hjournal, hplaces⟩ := h
  cases hstep with
  | enableLabels | enableFiles | label | file => exact ⟨notices, hjournal, hplaces⟩
  | warn haddr htold cause =>
    refine ⟨notices ++ [_], by rw [hjournal, List.append_assoc], fun cause' label line hmem => ?_⟩
    rcases List.mem_append.mp hmem with hmem | hmem
    · exact hplaces cause' label line hmem
    · obtain ⟨rfl, rfl, rfl⟩ := Notice.warning.inj (List.mem_singleton.mp hmem)
      exact ⟨_, haddr, htold, Script.reports_reportAt haddr⟩
  | note hplain =>
    refine ⟨notices ++ _, by rw [hjournal, List.append_assoc], fun cause label line hmem => ?_⟩
    rcases List.mem_append.mp hmem with hmem | hmem
    · exact hplaces cause label line hmem
    · exact absurd hmem (hplain cause label line)

private theorem of_steps (hsteps : Relation.ReflTransGen (Logs.Step script told) first logs) :
    Tells script told first logs := by
  induction hsteps with
  | refl => exact .refl
  | tail _ hstep ih => exact ih.step hstep

end Logs.Tells

namespace Machine

open LabelTable

variable {m : Machine}

/-- What a machine inside its script reports of the current statement. -/
theorem reports_location (h : m.core.Inside m.script) :
    m.script.Reports m.statementStart m.location.label m.location.line := by
  have hreport := Script.reports_reportAt h.statementStart
  rw [Script.reportAt, ← h.labels] at hreport
  exact hreport

/-- A saved position holds the place of its address. -/
theorem placeOf_positionOf (hlabels : m.labels = (build m.script).1) {addr : Nat}
    (haddr : addr ≤ m.script.size) :
    ∃ line, m.script.PlaceOf addr (m.positionOf addr).label line ∧
      (m.positionOf addr).line = Int32.ofNat line := by
  have hplace := Script.placeOf_enclosing? m.script addr
  rw [← hlabels] at hplace
  refine ⟨_, hplace, congrArg Int32.ofNat ?_⟩
  obtain ⟨hstart, hle⟩ : m.script.IsLineStart ((m.labels.enclosing? addr).map Label.start |>.getD 0) ∧
      ((m.labels.enclosing? addr).map Label.start |>.getD 0) ≤ addr := by
    cases hlabel : m.labels.enclosing? addr with
    | none => exact ⟨.inl rfl, Nat.zero_le _⟩
    | some label =>
      obtain ⟨hmem, hle⟩ := mem_of_enclosing? hlabel
      rw [hlabels] at hmem
      exact ⟨(stands_of_mem_build hmem).start, hle⟩
  -- Between the start of its line and the address there is no newline to count.
  rw [m.script.newlinesBetween_add (hstart.le_lineStart hle haddr) (Script.lineStart_le _ addr),
    Script.newlinesBetween_of_sameLine (Script.sameLine_lineStart haddr), Nat.add_zero]

/-- A label and a line that were told are compared with the position of an address. The label is the
same, and the line is the same exactly if it is the first one of the script, or there is a label
above the address or none at all. -/
def TellsPosition (m : Machine) (addr : Nat) (label : String) (line : Nat) : Prop :=
  label = (m.positionOf addr).label ∧
    ∃ place, m.script.PlaceOf addr label place ∧ (m.positionOf addr).line = Int32.ofNat place ∧
      (line = place ↔ place = 0 ∨ ¬ m.script.AboveLabels addr)

private theorem tellsPosition_of_reports (hlabels : m.labels = (build m.script).1) {addr : Nat}
    (haddr : addr ≤ m.script.size) {label : String} {line : Nat}
    (h : m.script.Reports addr label line) : m.TellsPosition addr label line := by
  obtain ⟨place, hplace, hline⟩ := placeOf_positionOf hlabels haddr
  obtain ⟨place', hplace', hreport⟩ := h
  obtain ⟨rfl, rfl⟩ := hplace'.unique hplace
  refine ⟨rfl, place', hplace, hline, ?_⟩
  rw [hreport]
  split
  · next habove => simp [habove, eq_comm]
  · next hbelow => simp [hbelow]

/-! ## Places of failures -/

/-- A place that is told is that of the machine where the action has left it. -/
def TellsPlace {α : Type} (action : Located α) : Prop :=
  ∀ ⦃m failure after⦄, action m = .error failure after →
    ∀ place ∈ failure.location, place = after.location

namespace TellsPlace

variable {α β : Type}

private theorem located (action : Run α) : TellsPlace (Machine.located action) := by
  intro m failure after h place hplace
  rw [Machine.located] at h
  split at h
  · cases h
  · cases h
    exact (Option.some.inj hplace).symm

private theorem unlocated (action : Run α) : TellsPlace (Machine.unlocated action) := by
  intro m failure after h place hplace
  rw [Machine.unlocated] at h
  split at h
  · cases h
  · cases h
    cases hplace

/-- What is told by two actions is told by the first one or by the second one. -/
protected theorem bind {action : Located α} {f : α → Located β} (h : TellsPlace action)
    (hf : ∀ a, TellsPlace (f a)) : TellsPlace (action >>= f) := by
  intro m failure after hrun
  cases hfirst : action m with
  | ok a middle =>
    rw [Action.bind_of_ok hfirst] at hrun
    exact hf a hrun
  | error failure' middle =>
    rw [Action.bind_of_error hfirst] at hrun
    cases hrun
    exact h hfirst

/-- An action that never fails has no place to tell. -/
protected theorem pure (a : α) : TellsPlace (Pure.pure a : Located α) := by
  rintro m failure after ⟨⟩

/-- A change of the machine never fails. -/
protected theorem modify (f : Machine → Machine) : TellsPlace (modify f : Located PUnit) := by
  rintro m failure after ⟨⟩

/-- Looking at the machine tells nothing. -/
protected theorem get {f : Machine → Located α} (hf : ∀ m, TellsPlace (f m)) :
    TellsPlace (MonadState.get >>= f) := fun m _ _ h => hf m h

/-- Each of two ways tells its place. -/
protected theorem ite {c : Prop} [Decidable c] {x y : Located α} (hx : TellsPlace x)
    (hy : TellsPlace y) : TellsPlace (if c then x else y) := by
  split
  · exact hx
  · exact hy

/-- A failure without a place tells none. -/
protected theorem throw (fault : Fault) :
    TellsPlace (throw (.ofFault fault) : Located α) := by
  rintro m failure after ⟨⟩ place ⟨⟩

/-- What an action gives may be put in another form. -/
theorem reply {action : Located α} (h : TellsPlace action) (f : α → Reply) :
    TellsPlace (do return f (← action)) :=
  h.bind fun _ => .pure _

private theorem finishCommand (outcome : Outcome) : TellsPlace (Machine.finishCommand outcome) :=
  .get fun _ => .ite (.bind (.modify _) fun _ => .located _) (.throw _)

private theorem stepSettled : TellsPlace Machine.stepSettled :=
  .get fun _ => .ite (.pure _) (.ite (.located _) (.located _))

private theorem step : TellsPlace Machine.step := by
  intro m failure after hrun
  cases hsettled : m.settled? with
  | none =>
    obtain ⟨failure', after', hfinish, hstep⟩ := step_of_not_settled hsettled
    cases hstep.symm.trans hrun
    exact finishCommand .advance hfinish
  | some settled =>
    rw [step_of_settled? hsettled] at hrun
    exact stepSettled hrun

private theorem perform (call : HostCall) : TellsPlace call.perform := by
  cases call with
  | step => exact step.reply _
  | finish outcome => exact (finishCommand outcome).reply _
  | readInt | readStr | readLabel | readVarRef | eatKeyword | eatToken => exact (unlocated _).reply _
  | skipOperands | registerHost | recordFile => exact .bind (.modify _) fun _ => .pure _
  | startAt | edit | savePersistent | saveSlot | loadSlot | restore =>
    exact (unlocated _).bind fun _ => .pure _

end TellsPlace

private theorem isSome_location_of_located {α : Type} {action : Run α} {failure : Failure}
    {after : Machine}
    (h : located action m = .error failure after) : failure.location.isSome = true := by
  rw [located] at h
  split at h
  · cases h
  · cases h
    rfl

/-- A step that fails tells a place. -/
theorem isSome_location_of_step {failure : Failure} {after : Machine}
    (h : step m = .error failure after) : failure.location.isSome = true := by
  cases hsettled : m.settled? with
  | none =>
    obtain ⟨failure', after', hfinish, hstep⟩ := step_of_not_settled hsettled
    cases hstep.symm.trans h
    have hpending : m.pendingHost.isSome = true := by
      by_contra hnone
      rw [settled?, if_neg hnone] at hsettled
      cases hsettled
    change (if m.pendingHost.isSome then _ else _ : Located Event) m = _ at hfinish
    rw [if_pos hpending, Action.modify_bind] at hfinish
    exact isSome_location_of_located hfinish
  | some settled =>
    rw [step_of_settled? hsettled] at h
    change (if settled.ended then _ else if settled.inText then _ else _ : Located Event) settled =
      _ at h
    split at h
    · cases h
    · split at h
      · exact isSome_location_of_located h
      · exact isSome_location_of_located h

/-- What fails tells the place where the machine is left, if it tells one, and a step tells one. -/
theorem tellsPlace_serve {call : HostCall} {failure : Failure}
    (h : (m.serve call).1 = .error failure) :
    (∀ place ∈ failure.location, place = (m.serve call).2.location) ∧
      (call = .step → failure.location.isSome = true) := by
  cases hrun : call.perform m with
  | ok reply after =>
    rw [serve, hrun] at h
    cases h
  | error failure' after =>
    have hafter : (m.serve call).2 = after := by rw [serve, hrun]
    rw [serve, hrun] at h
    cases h
    refine ⟨fun place hplace => hafter ▸ TellsPlace.perform call hrun place hplace, ?_⟩
    rintro rfl
    cases hstep : step m with
    | ok event after' =>
      rw [HostCall.perform, Action.bind_of_ok hstep] at hrun
      cases hrun
    | error failure'' after' =>
      rw [HostCall.perform, Action.bind_of_error hstep] at hrun
      cases hrun
      exact isSome_location_of_step hstep

/-- **Errors and warnings tell the label that the position of the current statement tells. The line
is the same exactly if it is the first one of the script, or there is a label above it or none at
all.** -/
theorem errors_tell_positions_iff (hm : Reachable m) (call : HostCall) :
    m.TellsPosition m.statementStart m.location.label m.location.line ∧
      (∀ failure, (m.serve call).1 = .error failure →
        (∀ place ∈ failure.location, place = (m.serve call).2.location) ∧
          (call = .step → failure.location.isSome = true)) ∧
      ∃ notices, (m.serve call).2.journal = m.journal ++ notices ∧
        ∀ cause label line, Notice.warning cause label line ∈ notices →
          ∃ addr, Current m (m.serve call).2 addr ∧ m.TellsPosition addr label line := by
  have hinside := hm.inside
  refine ⟨tellsPosition_of_reports hinside.labels hinside.statementStart (reports_location hinside),
    fun failure => tellsPlace_serve, ?_⟩
  obtain ⟨notices, hjournal, hplaces⟩ := Logs.Tells.of_steps (evolves_serve hinside call).logs
  refine ⟨notices, hjournal, fun cause label line hmem => ?_⟩
  obtain ⟨addr, haddr, hcurrent, hreports⟩ := hplaces cause label line hmem
  exact ⟨addr, hcurrent, tellsPosition_of_reports hinside.labels haddr hreports⟩

/-- A division by zero two lines below a label. -/
def dividingScript : Script where
  bytes := (Bytes.ofText "*start\nmov %0, 1\n*broken\nmov %1, 0\ndiv %0, %1\nend\n").toArray
  encoding := .utf8

/-- The machine that has failed to divide. -/
def afterDivision : Machine :=
  ((fresh dividingScript { variableSlots := 8 } .absent).serveAll (List.replicate 9 .step)).2

/-- The error tells the second line of the section, where the division stands. -/
theorem errors_tell_positions_afterDivision :
    Reachable afterDivision ∧ afterDivision.location = ⟨"broken", 2, some "div"⟩ ∧
      afterDivision.TellsPosition 35 "broken" 2 := by
  have hreachable : Reachable afterDivision :=
    Reachable.serveAll
      (.load (show load dividingScript { variableSlots := 8 } .absent = .ok _ from rfl)) _
  have hlocation : afterDivision.location = ⟨"broken", 2, some "div"⟩ := by decide +kernel
  have hstart : afterDivision.statementStart = 35 := by decide +kernel
  refine ⟨hreachable, hlocation, ?_⟩
  have htells := (errors_tell_positions_iff hreachable .step).1
  rwa [hstart, hlocation] at htells

/-- A jump to a label that does not exist, on the third line of a script and above its only
label. -/
def strayScript : Script where
  bytes := (Bytes.ofText "\n\ngoto *nowhere\n*start\n").toArray
  encoding := .utf8

/-- The machine that has failed to jump. -/
def afterStrayJump : Machine :=
  ((fresh strayScript { variableSlots := 8 } .absent).serveAll (List.replicate 3 .step)).2

/-- The failure tells line 0, and the position of the same statement line 2. -/
theorem error_tells_otherLine_afterStrayJump :
    Reachable afterStrayJump ∧ afterStrayJump.statementStart = 2 ∧
      afterStrayJump.location.label = "" ∧ afterStrayJump.location.line = 0 ∧
      (afterStrayJump.positionOf 2).label = "" ∧ (afterStrayJump.positionOf 2).line = 2 := by
  refine ⟨?_, by decide +kernel⟩
  exact Reachable.serveAll
    (.load (show load strayScript { variableSlots := 8 } .absent = .ok _ from rfl)) _

end Machine

end NovelScript
