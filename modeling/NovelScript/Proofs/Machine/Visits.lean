import NovelScript.Proofs.ReadMarks
import NovelScript.Proofs.Records.Calls

/-!
# Text that was read before

A step visits an address if it starts to read text there, if it executes a command whose statement
starts there, or if it comes to a tag that starts there. A machine that keeps marks has marked
exactly the addresses that were visited, in this session and in those before, as far as their marks
were handed on. So a run of text is told to have been read before exactly if its address was visited
by an earlier step. A line that is tried as a command and then read as text is visited once, by that
step itself, and this does not count.
-/

namespace NovelScript

namespace TextReader

/-- A run of text starts where it is read. -/
theorem start_of_read {setup : Setup} {store : Store} {addr : Nat} {narrow : Bool}
    {delivery : Delivery} (h : (read setup store addr narrow).1 = .ok delivery) :
    delivery.run.start = addr := by
  unfold read at h
  split at h
  · cases h
    rfl
  · cases h

end TextReader

namespace Records

/-- An address is marked, if one was visited. -/
def visit (addr? : Option Nat) (r : Records) : Records :=
  match addr? with
  | some addr => r.mark addr
  | none => r

end Records

namespace Machine

open NovelScript.Action (Keeps Returns)

variable {ε α : Type} {m : Machine} {r : Records} {addr? : Option Nat}

/-! ## Visits -/

/-- The address that a statement visits. -/
def statementVisit? (m : Machine) (statement : Statement) : Option Nat :=
  match statement.kind with
  -- Text is read from the start of its line.
  | .text => some statement.start
  -- A tag is handled, unless it is not closed and that is a fault.
  | .pretextTag _ =>
    if m.settings.strict && !statement.warnings.isEmpty then none else some statement.start
  | .command word =>
    match m.commands.resolve word with
    | .builtin _ | .subroutine _ | .host _ => some statement.start
    -- The line is read as text after all, unless only a command was meant.
    | .unknown => if word.forced then none else some statement.start
  | .comment | .label _ | .endOfLine | .sectionMarker | .endOfScript => none

/-- The address that a call of the host visits. Only steps visit any, once a pending command of the
host is finished: they read on in text, or come to a statement. -/
def HostCall.visit? (m : Machine) : HostCall → Option Nat
  | step =>
    match m.settled? with
    | none => none
    | some settled =>
      if settled.ended then none
      else if settled.inText then some settled.pc
      else settled.statementVisit?
        (settled.script.statementAt settled.pc settled.pretextHook.isSome)
  | _ => none

/-- An address of the script is visited. -/
theorem visit?_le_size (hm : Reachable m) {call : HostCall} {addr : Nat}
    (h : call.visit? m = some addr) : addr ≤ m.script.size := by
  have hstatement : ∀ (m : Machine) (statement : Statement) (addr : Nat),
      m.statementVisit? statement = some addr → addr = statement.start := by
    intro m statement addr h
    unfold statementVisit? at h
    split at h
    all_goals repeat' split at h
    all_goals cases h
    all_goals rfl
  cases call with
  | step =>
    unfold HostCall.visit? at h
    cases hsettled : m.settled? with
    | none =>
      rw [hsettled] at h
      cases h
    | some settled =>
      have hevolves : Evolves .still m.script m settled :=
        (Evolves.refl hm.inside).settled hsettled
      rw [hsettled] at h
      rw [← hevolves.script_eq]
      dsimp only at h
      split_ifs at h
      · cases h
        exact hevolves.script_eq ▸ hevolves.inside.pc
      · rw [hstatement settled _ addr h]
        exact (settled.script.statementAt_le_size settled.pc settled.pretextHook.isSome).1
  | _ => cases h

/-! ## Actions that visit nothing -/

/-- The action changes no marks. -/
def KeepsMarks (x : EStateM ε Machine α) : Prop :=
  ∀ marks, Keeps (fun m => m.marks = marks) x

/-- The event hands over no text. -/
def Silent (event : Event) : Prop :=
  ∀ run, event ≠ .text run

private theorem Plain.keepsMarks {x : Run α} (hx : Plain x) : KeepsMarks x := fun marks =>
  hx.keeps (P := fun r => r.marks = marks) ⟨fun h _ _ => h, fun h _ _ => h⟩

private theorem silent_complete (outcome : Outcome) : Returns (complete outcome) Silent := by
  cases outcome with
  | advance | skipLine | restart | stop => exact .bind fun _ => .pure nofun
  | stay => exact .pure nofun

private theorem keepsMarks_finishCommand (outcome : Outcome) :
    KeepsMarks (finishCommand outcome) := by
  intro marks
  refine .get fun m _ => .ite (fun _ => ?_) fun _ => .throw _
  exact .bind (.modify fun _ h => h) fun _ => keeps_located ((plain_complete outcome).keepsMarks marks)

/-! ## Actions that visit an address -/

/-- How a run ends that visits an address, or none: that address is marked in addition, and text
that is handed over comes from there and tells whether the address was marked before. -/
def Visited (r : Records) (addr? : Option Nat) : EStateM.Result ε Machine Event → Prop
  | .ok event after => after.marks = (r.visit addr?).marks ∧
      ∀ run, event = .text run → addr? = some run.start ∧ run.seen = r.seen run.start
  | .error _ after => after.marks = (r.visit addr?).marks

/-- Once the address is marked, nothing more may be visited. -/
theorem visited_of_keepsMarks {x : EStateM ε Machine Event} (hx : KeepsMarks x)
    (hsilent : Returns x Silent) (hm : m.marks = (r.visit addr?).marks) :
    Visited r addr? (x m) := by
  have hafter := hx _ hm
  cases hrun : x m with
  | ok event after =>
    rw [Action.after_of_ok hrun] at hafter
    exact ⟨hafter, fun run htext => absurd htext (hsilent m event after hrun run)⟩
  | error e after =>
    rw [Action.after_of_error hrun] at hafter
    exact hafter

private theorem Visited.located {x : Run Event} (h : Visited r addr? (x m)) :
    Visited r addr? (located x m) := by
  simp only [Machine.located]
  cases hrun : x m with
  | ok event after => rwa [hrun] at h
  | error fault after => rwa [hrun] at h

/-- Only marks and settings matter for what is told of text. -/
theorem Visited.congr {t : Records} {result : EStateM.Result ε Machine Event}
    (hmarks : t.marks = r.marks) (hsettings : t.settings = r.settings)
    (h : Visited t addr? result) : Visited r addr? result := by
  have hseen : ∀ addr, t.seen addr = r.seen addr := by
    intro addr
    rw [Records.seen, Records.seen, hmarks, hsettings]
  have hvisit : (t.visit addr?).marks = (r.visit addr?).marks := by
    cases addr? with
    | none => exact hmarks
    | some addr => simp only [Records.visit, Records.mark, hmarks, hsettings]
  cases result with
  | ok event after =>
    refine ⟨h.1.trans hvisit, fun run htext => ?_⟩
    rw [← hseen]
    exact h.2 run htext
  | error e after => exact Eq.trans h hvisit

/-- A run is handed over from where it starts, with what is known of its address. -/
theorem returns_deliver (seen : Bool) (delivery : TextReader.Delivery) :
    Returns (deliver seen delivery) fun event => ∀ run, event = .text run →
      run.start = delivery.run.start ∧ run.seen = seen := by
  refine .bind fun _ => .bind fun _ => .ite (.bind fun _ => .ite (.pure nofun) (.pure ?_)) ?_
  · rintro run ⟨⟩
    exact ⟨rfl, rfl⟩
  · refine .bind fun m => ?_
    cases m.textHook with
    | none =>
      refine .pure ?_
      rintro run ⟨⟩
      exact ⟨rfl, rfl⟩
    | some label =>
      refine .bind fun _ => .bind fun _ => .pure ?_
      rintro run ⟨⟩
      exact ⟨rfl, rfl⟩

private theorem start_of_readDelivery {delivery : TextReader.Delivery} {after : Machine}
    (h : readDelivery m = .ok delivery after) : delivery.run.start = m.pc := by
  let read := TextReader.read { script := m.script, aliases := m.aliases, style := m.style }
    m.store m.pc m.narrow
  have hread : Action.ofExcept read.1 { m with store := read.2 } = .ok delivery after := h
  cases hresult : read.1 with
  | error fault =>
    rw [hresult] at hread
    cases hread
  | ok found =>
    rw [hresult] at hread
    cases hread
    exact TextReader.start_of_read hresult

/-- Reading text visits the address where it starts. -/
theorem visited_readText (m : Machine) : Visited m.records (some m.pc) (readText m) := by
  have hkeeps : KeepsMarks (readDelivery >>= deliver (m.records.seen m.pc)) :=
    (Plain.bind plain_readDelivery fun delivery => plain_deliver _ delivery).keepsMarks
  let marked := m.withRecords (m.records.mark m.pc)
  have hafter := hkeeps _ (show marked.marks = marked.marks from rfl)
  rw [readText_eq]
  cases hrun : (readDelivery >>= deliver (m.records.seen m.pc)) marked with
  | error fault after =>
    rw [Action.after_of_error hrun] at hafter
    exact hafter
  | ok event after =>
    rw [Action.after_of_ok hrun] at hafter
    refine ⟨hafter, fun run htext => ?_⟩
    obtain ⟨delivery, middle, hread, hdeliver⟩ := Action.exists_of_run_eq_ok hrun
    obtain ⟨hstart, hseen⟩ := returns_deliver _ delivery middle event after hdeliver run htext
    have hpc : delivery.run.start = marked.pc := start_of_readDelivery hread
    rw [hstart, hpc]
    exact ⟨rfl, hseen⟩

/-! ## Statements -/

/-- Marking an address visits it, if what comes then visits nothing. -/
theorem visited_markRead {f : Unit → Run Event} (hf : KeepsMarks (f ()))
    (hsilent : Returns (f ()) Silent) (m : Machine) (addr : Nat) :
    Visited m.records (some addr) ((discard (markRead addr) >>= f) m) := by
  rw [Action.bind_of_ok (Action.discard_of_ok (markRead_eq m addr))]
  exact visited_of_keepsMarks hf hsilent rfl

/-- A command word visits its statement, unless it can be neither a command nor text. -/
theorem visited_runCommand (m : Machine) (start operands : Nat) (word : CommandWord) :
    Visited m.records
      (match m.commands.resolve word with
        | .builtin _ | .subroutine _ | .host _ => some start
        | .unknown => if word.forced then none else some start)
      (runCommand start operands word m) := by
  rw [runCommand, Action.modify_bind, Action.get_bind]
  dsimp only
  cases m.commands.resolve word with
  | builtin command =>
    refine visited_markRead (fun marks => ?_) ?_ { m with statementName := some word.name } start
    · refine .bind (.modify fun _ h => h) fun _ => ?_
      exact .bind ((plain_execute command).keepsMarks marks) fun outcome =>
        (plain_complete outcome).keepsMarks marks
    · exact .bind fun _ => .bind silent_complete
  | subroutine label =>
    refine visited_markRead ?_ ?_ { m with statementName := some word.name } start
    · exact fun marks => .get fun m _ => (plain_pushFrame_jumpTo _ _ _).keepsMarks marks
    · exact .bind fun _ => .bind fun _ => .bind fun _ => .pure nofun
  | host name =>
    refine visited_markRead (fun marks => ?_) ?_ { m with statementName := some word.name } start
    · exact .bind (.modify fun _ h => h) fun _ => .pure _
    · exact .bind fun _ => .pure nofun
  | unknown =>
    dsimp only
    split
    · exact rfl
    · exact visited_readText { m with statementName := none, pc := start, inText := true }

private theorem visited_runTag (m : Machine) (start next : Nat) (tag : Bytes) :
    Visited m.records (some start) (runTag start next tag m) := by
  refine visited_markRead (fun marks => ?_) ?_ m start
  · refine .bind (.modify fun _ h => h) fun _ => .get fun m _ => ?_
    cases m.pretextHook with
    | some label => exact (plain_pushFrame_jumpTo _ _ _).keepsMarks marks
    | none => exact .bind (.modify fun _ h => h) fun _ => .pure _
  · refine .bind fun _ => .bind fun m => ?_
    cases m.pretextHook with
    | some label => exact .bind fun _ => .bind fun _ => .pure nofun
    | none => exact .bind fun _ => .pure nofun

/-- Unless they are faults, warnings are only added to the records. -/
theorem warnAll_of_lenient (h : m.settings.strict = false) (warnings : List Warning) :
    ∃ t : Records, t.marks = m.marks ∧ t.settings = m.settings ∧
      warnAll warnings m = .ok () (m.withRecords t) := by
  induction warnings generalizing m with
  | nil => exact ⟨m.records, rfl, rfl, rfl⟩
  | cons warning warnings ih =>
    have hwarn := warn_eq m warning
    rw [h, if_neg Bool.false_ne_true] at hwarn
    obtain ⟨t, hmarks, hsettings, hrest⟩ := ih (m := m.withRecords (m.records.note 1
      [.warning warning m.location.label m.location.line])) h
    refine ⟨t, hmarks, hsettings, ?_⟩
    rw [warnAll, Action.bind_of_ok hwarn, hrest]
    rfl

/-- A tag visits its start, unless the warning that it is not closed is a fault. -/
theorem visited_tag {statement : Statement} {tag : Bytes} (hkind : statement.kind = .pretextTag tag)
    (m : Machine) : Visited m.records (m.statementVisit? statement) (carryOut statement m) := by
  rw [carryOut, statementVisit?, hkind]
  dsimp only
  cases hwarnings : statement.warnings with
  | nil =>
    rw [List.isEmpty_nil, Bool.not_true, Bool.and_false, if_neg Bool.false_ne_true]
    exact visited_runTag m _ _ tag
  | cons warning warnings =>
    by_cases hstrict : m.settings.strict = true
    · have hwarn := warn_eq m warning
      rw [if_pos hstrict] at hwarn
      rw [hstrict, warnAll, bind_assoc, Action.bind_of_error hwarn]
      exact rfl
    · have hlenient : m.settings.strict = false := by simpa using hstrict
      obtain ⟨t, hmarks, hsettings, hwarn⟩ := warnAll_of_lenient hlenient (warning :: warnings)
      rw [hlenient, Action.bind_of_ok hwarn]
      exact (visited_runTag (m.withRecords t) _ _ tag).congr hmarks hsettings

/-- **A statement visits its start, or nothing.** -/
theorem visited_carryOut {statement : Statement}
    (h : statement.warnings = [] ∨ ∃ tag, statement.kind = .pretextTag tag) (m : Machine) :
    Visited m.records (m.statementVisit? statement) (carryOut statement m) := by
  obtain hwarnings | ⟨tag, htag⟩ := h
  · cases hkind : statement.kind with
    | pretextTag tag => exact visited_tag hkind m
    | command word =>
      rw [carryOut, statementVisit?, hwarnings, hkind]
      exact visited_runCommand m _ _ word
    | text =>
      rw [carryOut, statementVisit?, hwarnings, hkind]
      exact visited_readText { m with pc := statement.start, inText := true }
    | endOfScript =>
      rw [carryOut, statementVisit?, hwarnings, hkind]
      exact visited_of_keepsMarks (plain_complete .stop).keepsMarks (silent_complete .stop) rfl
    | comment | endOfLine | sectionMarker | label name =>
      rw [carryOut, statementVisit?, hwarnings, hkind]
      exact ⟨rfl, nofun⟩
  · exact visited_tag htag m

/-! ## Calls of the host -/

/-- **A step visits an address or none.** -/
theorem visited_step (m : Machine) : Visited m.records (HostCall.step.visit? m) (step m) := by
  unfold HostCall.visit?
  cases hsettled : m.settled? with
  | none =>
    obtain ⟨failure, after, hfinish, hstep⟩ := step_of_not_settled hsettled
    have hmarks := keepsMarks_finishCommand .advance m.marks (show m.marks = m.marks from rfl)
    rw [Action.after_of_error hfinish] at hmarks
    rw [hstep]
    exact hmarks
  | some settled =>
    have hsame : settled.marks = m.marks ∧ settled.settings = m.settings :=
      of_settled? (I := fun n => n.marks = m.marks ∧ n.settings = m.settings) (fun _ _ h => h)
        (fun _ _ _ h => h) ⟨rfl, rfl⟩ hsettled
    rw [step_of_settled? hsettled, stepSettled, Action.get_bind]
    refine Visited.congr (t := settled.records) hsame.1 hsame.2 ?_
    dsimp only
    split_ifs
    · exact ⟨rfl, nofun⟩
    · exact (visited_readText settled).located
    · have hrun : Visited settled.records (settled.statementVisit?
          (settled.script.statementAt settled.pc settled.pretextHook.isSome))
          (runStatement settled) := by
        rw [runStatement_eq]
        exact visited_carryOut (warnings_statementAt _ _ _) _
      exact hrun.located

private theorem silent_finishCommand (outcome : Outcome) :
    Returns (finishCommand outcome) Silent := by
  refine .bind fun m => .ite (.bind fun _ => ?_) .throw
  intro m event after h
  rw [located] at h
  cases hrun : complete outcome m with
  | ok event' after' =>
    rw [hrun] at h
    cases h
    exact silent_complete outcome m event after hrun
  | error fault after' =>
    rw [hrun] at h
    cases h

/-- Other calls change no marks. -/
theorem keepsMarks_perform {call : HostCall} (hcall : call ≠ .step) : KeepsMarks call.perform := by
  intro marks
  have hread : ∀ {α : Type} {x : Run α} {f : α → Reply}, Plain x →
      Keeps (fun m => m.marks = marks) (do return f (← unlocated x)) := fun hx =>
    .bind (keeps_unlocated (hx.keepsMarks marks)) fun _ => .pure _
  cases call with
  | step => exact absurd rfl hcall
  | finish outcome => exact .bind (keepsMarks_finishCommand outcome marks) fun _ => .pure _
  | readInt | readStr | readLabel | readVarRef => exact hread (plain_operand _)
  | skipOperands | registerHost name | recordFile name =>
    exact .bind (.modify fun _ h => h) fun _ => .pure _
  | eatKeyword word => exact hread (plain_eatKeyword _)
  | eatToken token => exact hread (plain_eatToken _)
  | startAt name => exact hread (plain_jumpTo _)
  | edit change => exact hread (plain_updateStore _)
  | savePersistent => exact hread plain_savePersistent
  | saveSlot slot resume description => exact hread (plain_saveSlot _ _ _)
  | loadSlot slot => exact hread (plain_loadSlot _)
  | restore save => exact hread (plain_resume _)

/-- Other calls hand over no text. -/
theorem silent_perform {call : HostCall} (hcall : call ≠ .step) :
    Returns call.perform fun reply => ∀ run, reply ≠ .event (.text run) := by
  cases call with
  | step => exact absurd rfl hcall
  | finish outcome =>
    refine .seq (silent_finishCommand outcome) fun event hevent => .pure ?_
    rintro run ⟨⟩
    exact hevent run rfl
  | _ => exact .bind fun _ => .pure nofun

/-- **What a call of the host does to the marks, and what it tells of text.** -/
theorem visited_serve (m : Machine) (call : HostCall) :
    (m.serve call).2.marks = (m.records.visit (call.visit? m)).marks ∧
      ∀ run, (m.serve call).1 = .ok (.event (.text run)) →
        call.visit? m = some run.start ∧ run.seen = m.records.seen run.start := by
  by_cases hcall : call = .step
  · subst hcall
    have hvisited := visited_step m
    have hperform : HostCall.step.perform m = (step >>= fun event => pure (.event event)) m := rfl
    rw [serve, hperform]
    cases hstep : step m with
    | error failure after =>
      rw [hstep] at hvisited
      rw [Action.bind_of_error hstep]
      refine ⟨hvisited, fun run htext => ?_⟩
      cases htext
    | ok event after =>
      rw [hstep] at hvisited
      rw [Action.bind_of_ok hstep]
      refine ⟨hvisited.1, fun run htext => hvisited.2 run ?_⟩
      cases htext
      rfl
  · have hnone : call.visit? m = none := by
      cases call with
      | step => exact absurd rfl hcall
      | _ => rfl
    have hmarks := keepsMarks_perform hcall m.marks (show m.marks = m.marks from rfl)
    rw [← serve_snd] at hmarks
    rw [hnone]
    refine ⟨hmarks, fun run htext => ?_⟩
    rw [serve] at htext
    cases hperform : call.perform m with
    | ok reply after =>
      rw [hperform] at htext
      cases htext
      exact absurd rfl (silent_perform hcall m _ after hperform run)
    | error failure after =>
      rw [hperform] at htext
      cases htext

/-! ## Sessions -/

/-- Sessions of one script, with marks kept, that have led to a machine and have visited these
addresses so far, the last one first. The first session begins without marks, and every further one
with those of a session before, out of the bytes that are stored of them. -/
inductive Sessions (script : Script) : List Nat → Machine → Prop where
  /-- The first session begins. -/
  | first {settings : Settings} {saves : SaveArea} {entropy : RandomSource} {library : Library}
      {m : Machine} (hload : load script settings saves entropy library = .ok m)
      (htracked : settings.trackRead = true) (hmarks : m.marks = .none script.size) :
    Sessions script [] m
  /-- A further session begins. -/
  | next {visited : List Nat} {last : Machine} {settings : Settings} {saves : SaveArea}
      {entropy : RandomSource} {library : Library} {m : Machine} (h : Sessions script visited last)
      (hload : load script settings saves entropy library = .ok m)
      (htracked : settings.trackRead = true)
      (hmarks : m.marks = .ofBytes last.marks.toBytes script.size) : Sessions script visited m
  /-- The host makes a call. -/
  | serve {visited : List Nat} {m : Machine} (h : Sessions script visited m) (call : HostCall) :
    Sessions script ((call.visit? m).toList ++ visited) (m.serve call).2

/-- The addresses that calls visit, the last one first. -/
def visits : List HostCall → Machine → List Nat
  | [], _ => []
  | call :: calls, m => visits calls (m.serve call).2 ++ (call.visit? m).toList

private theorem Sessions.serveAll {script : Script} {visited : List Nat}
    (h : Sessions script visited m)
    (calls : List HostCall) : Sessions script (visits calls m ++ visited) (m.serveAll calls).2 := by
  induction calls generalizing m visited with
  | nil => exact h
  | cons call calls ih =>
    rw [visits, List.append_assoc]
    exact ih (h.serve call)

section

variable {script : Script} {visited : List Nat}

private theorem Sessions.reachable (h : Sessions script visited m) : Reachable m := by
  induction h with
  | first hload _ _ => exact .load hload
  | next _ hload _ _ _ => exact .load hload
  | serve _ call ih => exact ih.serve call

/-- A machine is loaded for its script with its settings. -/
theorem settings_of_load {settings : Settings} {saves : SaveArea} {entropy : RandomSource}
    {library : Library} (h : load script settings saves entropy library = .ok m) :
    m.script = script ∧ m.settings = settings := by
  obtain ⟨labelLog, fileLog, store, -, -, -, rfl⟩ := loadPersistent_eq_ok h
  exact ⟨rfl, rfl⟩

/-- Marks are kept of the script all the time. -/
theorem Sessions.tracked (h : Sessions script visited m) :
    m.script = script ∧ m.settings.trackRead = true := by
  induction h with
  | first hload htracked _ =>
    obtain ⟨hscript, hsettings⟩ := settings_of_load hload
    exact ⟨hscript, hsettings ▸ htracked⟩
  | next _ hload htracked _ _ =>
    obtain ⟨hscript, hsettings⟩ := settings_of_load hload
    exact ⟨hscript, hsettings ▸ htracked⟩
  | @serve _ m h call ih =>
    rw [settings_serve, (evolves_serve h.reachable.inside call).script_eq]
    exact ih

/-- **The marks are the history of visits.** -/
theorem Sessions.represents (h : Sessions script visited m) :
    m.marks.Represents script.size visited := by
  induction h with
  | first _ _ hmarks =>
    rw [hmarks]
    exact ReadMarks.represents_none script.size
  | next _ _ _ hmarks ih =>
    rw [hmarks]
    exact ih.stored
  | @serve visited m h call ih =>
    obtain ⟨hscript, htracked⟩ := h.tracked
    rw [(visited_serve m call).1]
    cases hvisit : call.visit? m with
    | none => exact ih
    | some addr =>
      have haddr : addr ≤ script.size := hscript ▸ visit?_le_size h.reachable hvisit
      have hmark : (m.records.mark addr).marks = m.marks.mark addr := if_pos htracked
      rw [Records.visit, hmark]
      exact ih.mark haddr

/-- **Text was read before exactly if its address was visited before.** Over any number of sessions,
a run of text comes from the address that its step visits, and it is told to have been read before
exactly if an earlier step has visited this address. What is marked is what was visited, and no mark
is ever taken away. -/
theorem seen_iff_visited (h : Sessions script visited m) :
    (∀ call run, (m.serve call).1 = .ok (.event (.text run)) →
      call.visit? m = some run.start ∧ (run.seen = true ↔ run.start ∈ visited)) ∧
    (∀ addr, m.marks.isMarked addr = true ↔ addr ∈ visited) ∧
    ∀ call addr, m.marks.isMarked addr = true → (m.serve call).2.marks.isMarked addr = true := by
  have hmarked := h.represents.marked
  refine ⟨fun call run htext => ?_, hmarked, fun call addr hbefore => ?_⟩
  · obtain ⟨hvisit, hseen⟩ := (visited_serve m call).2 run htext
    have htracked : m.records.settings.trackRead = true := h.tracked.2
    refine ⟨hvisit, ?_⟩
    rw [hseen, Records.seen, htracked, Bool.true_and, ← hmarked]
    rfl
  · rw [(h.serve call).represents.marked]
    exact List.mem_append_right _ ((hmarked addr).mp hbefore)

end

/-- The machine after a first session in which the page was read and its marks were stored. -/
def pageRead : Machine :=
  ((pageStart true).serveAll [.step, .step, .step, .savePersistent]).2

/-- The machine at the beginning of a second session with the same files. -/
def pageReopened : Machine :=
  { fresh pageScript { variableSlots := 8, trackRead := true } pageRead.saves with
    marks := .ofBytes pageRead.marks.toBytes pageScript.size }

/-- The text of the page. -/
def pageText (seen : Bool) : TextRun where
  pieces := [.chars (Bytes.ofText "Hello")]
  stop := .newPage
  start := 6
  seen

/-- The line of the page is tried as a command before it is read as text. In the first session it is
told to be new all the same, and in the second one to have been read before. -/
theorem seen_iff_visited_pageReopened :
    let first := ((pageStart true).serveAll [.step, .step]).2
    let second := (pageReopened.serveAll [.step, .step]).2
    (Sessions pageScript [] first ∧
      (first.serve .step).1 = .ok (.event (.text (pageText false))) ∧
      HostCall.step.visit? first = some 6 ∧ ¬ (pageText false).seen = true) ∧
    Sessions pageScript [6] second ∧
      (second.serve .step).1 = .ok (.event (.text (pageText true))) ∧
      HostCall.step.visit? second = some 6 ∧ (pageText true).seen = true := by
  intro first second
  have hopened : Sessions pageScript [] (pageStart true) :=
    .first (show load pageScript { variableSlots := 8, trackRead := true } (.folder {}) =
      .ok (pageStart true) from rfl) rfl rfl
  have hload : load pageScript { variableSlots := 8, trackRead := true } pageRead.saves =
      .ok pageReopened := by
    let opened := fresh pageScript { variableSlots := 8, trackRead := true } pageRead.saves
    have hlabelLog : opened.loadLog labelLogFile opened.labelLog = .ok {} := by decide +kernel
    have hfileLog : opened.loadLog fileLogFile opened.fileLog = .ok {} := by decide +kernel
    have hstore : opened.loadGlobals = .ok opened.store := by decide +kernel
    have hmarks : opened.loadMarks = .ofBytes pageRead.marks.toBytes pageScript.size := by
      decide +kernel
    have hloaded := loadPersistent_of_ok hlabelLog hfileLog hstore
    rw [hmarks] at hloaded
    exact hloaded
  have hvisits : visits [.step, .step] (pageStart true) = [] ∧
      visits [.step, .step, .step, .savePersistent] (pageStart true) = [6] ∧
      visits [.step, .step] pageReopened = [] := by decide +kernel
  have htexts : (first.serve .step).1 = .ok (.event (.text (pageText false))) ∧
      (second.serve .step).1 = .ok (.event (.text (pageText true))) := by decide +kernel
  have hfirst : Sessions pageScript [] first := by
    have hsessions := hopened.serveAll [.step, .step]
    rwa [hvisits.1] at hsessions
  have hread : Sessions pageScript [6] pageRead := by
    have hsessions := hopened.serveAll [.step, .step, .step, .savePersistent]
    rwa [hvisits.2.1] at hsessions
  have hsecond : Sessions pageScript [6] second := by
    have hsessions := (Sessions.next hread hload rfl rfl).serveAll [.step, .step]
    rwa [hvisits.2.2] at hsessions
  obtain ⟨htold, -⟩ := seen_iff_visited hfirst
  obtain ⟨htold', -⟩ := seen_iff_visited hsecond
  obtain ⟨hvisit, hseen⟩ := htold .step _ htexts.1
  obtain ⟨hvisit', hseen'⟩ := htold' .step _ htexts.2
  refine ⟨⟨hfirst, htexts.1, hvisit, fun hbefore => ?_⟩, hsecond, htexts.2, hvisit', ?_⟩
  · exact absurd (hseen.mp hbefore) List.not_mem_nil
  · exact hseen'.mpr List.mem_cons_self

end Machine

end NovelScript
