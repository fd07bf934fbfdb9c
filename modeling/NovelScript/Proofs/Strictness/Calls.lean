import NovelScript.Proofs.Strictness.Commands

/-!
# Strict mode and the cap on nesting only add failures

A host that never sees a warning, and never sees more open calls and loops than some cap, cannot
tell a lenient machine from the strict one with that cap: all calls have the same answers, and the
states stay the same apart from the two settings.
-/

namespace NovelScript.Machine

variable {α : Type} {cap : Nat} {m : Machine}

/-! ## Steps -/

private theorem oblivious_endStatement : Oblivious cap endStatement := by
  refine .get (fun _ => rfl) fun m => .join (oblivious_moveTo _) (oblivious_moveTo _) fun _ => ?_
  exact .ite (oblivious_warn _) (.pure ())

private theorem oblivious_restart : Oblivious cap restart :=
  .bind (.modify fun _ => ⟨rfl, rfl, rfl, rfl⟩) fun _ => oblivious_jumpTo _

private theorem oblivious_finishProgram : Oblivious cap finishProgram :=
  .get (fun _ => rfl) fun _ => .ite (.pure ())
    (.bind (.modify fun _ => ⟨rfl, rfl, rfl, rfl⟩) fun _ => oblivious_savePersistent)

private theorem oblivious_complete (outcome : Outcome) : Oblivious cap (complete outcome) := by
  cases outcome with
  | advance => exact .bind oblivious_endStatement fun _ => .pure _
  | skipLine => exact .bind (.modify fun _ => ⟨rfl, rfl, rfl, rfl⟩) fun _ => .pure _
  | stay => exact .pure _
  | restart => exact .bind oblivious_restart fun _ => .pure _
  | stop => exact .bind oblivious_finishProgram fun _ => .pure _

private theorem level_warn (warning : Warning) : Level (warn warning) := fun _ =>
  .get fun _ hm => .ite (fun _ => .throw _) fun _ => .set hm

private theorem level_savePersistent : Level savePersistent := fun _ =>
  keeps_savePersistent_of fun _ _ hm => hm

private theorem level_endStatement : Level endStatement := by
  refine fun depth => .get fun m _ => .join (level_moveTo _ _) (level_moveTo _ _) fun _ => ?_
  exact .ite (fun _ => level_warn _ _) fun _ => .pure _

/-- Only a restart closes anything after a command. -/
theorem level_complete {outcome : Outcome} (h : outcome ≠ .restart) : Level (complete outcome) := by
  intro depth
  cases outcome with
  | advance => exact .bind (level_endStatement _) fun _ => .pure _
  | skipLine => exact .bind (.modify fun _ hm => hm) fun _ => .pure _
  | stay => exact .pure _
  | restart => exact absurd rfl h
  | stop =>
    refine .bind (.get fun m _ => .ite (fun _ => .pure _) fun _ => ?_) fun _ => .pure _
    exact .bind (.modify fun _ hm => hm) fun _ => level_savePersistent _

private theorem capped_runCommand (start operands : Nat) (word : CommandWord) :
    Capped cap (runCommand start operands word) := by
  refine .after (.modify fun _ => ⟨rfl, rfl, rfl, rfl⟩) fun _ => .get (fun _ => rfl) fun m => ?_
  cases m.commands.resolve word with
  | builtin command =>
    refine .after (oblivious_markRead _).discard fun _ => .after (oblivious_moveTo _) fun _ => ?_
    rcases execute_cases command with h | ⟨hcapped, hreturns⟩
    · exact .after h fun outcome => (oblivious_complete outcome).capped
    · refine .before hcapped fun m outcome m' hrun => ?_
      exact ⟨oblivious_complete outcome, level_complete (hreturns m outcome m' hrun)⟩
  | subroutine label =>
    refine .after (oblivious_markRead _).discard fun _ => .get (fun _ => rfl) fun m => ?_
    exact capped_pushFrame_jumpTo _ _ _
  | host name =>
    refine .after (oblivious_markRead _).discard fun _ => ?_
    exact .after (.modify fun _ => ⟨rfl, rfl, rfl, rfl⟩) fun _ => (Oblivious.pure _).capped
  | unknown =>
    refine .ite (Oblivious.throw _).capped ?_
    exact .after (.modify fun _ => ⟨rfl, rfl, rfl, rfl⟩) fun _ => capped_readText

private theorem capped_runTag (start next : Nat) (tag : Bytes) :
    Capped cap (runTag start next tag) := by
  refine .after (oblivious_markRead _).discard fun _ => ?_
  refine .after (.modify fun _ => ⟨rfl, rfl, rfl, rfl⟩) fun _ => .get (fun _ => rfl) fun m => ?_
  cases m.pretextHook with
  | some label => exact capped_pushFrame_jumpTo _ _ _
  | none =>
    exact .after (.modify fun _ => ⟨rfl, rfl, rfl, rfl⟩) fun _ => (Oblivious.pure _).capped

private theorem capped_runStatement : Capped cap runStatement := by
  intro m hm
  refine Follows.get ?_
  refine Follows.seq (C := fun _ => True) (Follows.set hm ?_) (fun _ _ => trivial)
    fun _ m' _ hm' => ⟨?_, fun _ => trivial⟩
  · exact ⟨rfl, rfl, rfl, rfl⟩
  refine (show Capped cap _ from ?_) hm'
  refine .after (oblivious_warnAll _) fun _ => ?_
  cases (m.script.statementAt m.pc m.pretextHook.isSome).kind with
  | endOfScript => exact .after oblivious_finishProgram fun _ => (Oblivious.pure _).capped
  | comment | endOfLine => exact .after (oblivious_moveTo _) fun _ => (Oblivious.pure _).capped
  | sectionMarker | label name =>
    exact .after (.modify fun _ => ⟨rfl, rfl, rfl, rfl⟩) fun _ => (Oblivious.pure _).capped
  | pretextTag tag => exact capped_runTag _ _ _
  | command word => exact capped_runCommand _ _ _
  | text => exact .after (.modify fun _ => ⟨rfl, rfl, rfl, rfl⟩) fun _ => capped_readText

/-! ## Calls of the host -/

/-- Failures are described alike: the place does not depend on strictness. -/
theorem Follows.located {C : Machine → Prop} {x y : Run α} (h : Follows cap C x y m) :
    Follows cap C (Machine.located x) (Machine.located y) m := by
  have hafter := after_located x m
  refine ⟨hafter ▸ h.lenient, hafter ▸ h.warnings, ?_⟩
  rw [hafter]
  intro hw hC
  simp only [Machine.located, h.agrees hw hC]
  cases x m <;> rfl

private theorem Follows.unlocated {C : Machine → Prop} {x y : Run α} (h : Follows cap C x y m) :
    Follows cap C (Machine.unlocated x) (Machine.unlocated y) m := by
  have hafter := after_unlocated x m
  refine ⟨hafter ▸ h.lenient, hafter ▸ h.warnings, ?_⟩
  rw [hafter]
  intro hw hC
  simp only [Machine.unlocated, h.agrees hw hC]
  cases x m <;> rfl

private theorem oblivious_finishCommand (outcome : Outcome) :
    Oblivious cap (finishCommand outcome) := by
  refine .get (fun _ => rfl) fun m => .ite ?_ (.throw _)
  exact .bind (.modify fun _ => ⟨rfl, rfl, rfl, rfl⟩) fun _ => fun _ hm =>
    (oblivious_complete outcome hm).located

private theorem capped_step : Capped cap step := by
  have hrest : Capped cap (do
      let m ← get
      if m.ended then return Event.ended
      else if m.inText then Machine.located readText
      else Machine.located runStatement) := by
    refine .get (fun _ => rfl) fun m => .ite (Oblivious.pure _).capped (.ite ?_ ?_)
    · exact fun _ hm => (capped_readText hm).located
    · exact fun _ hm => (capped_runStatement hm).located
  refine .get (fun _ => rfl) fun m => .ite ?_ hrest
  exact .after (oblivious_finishCommand _).discard fun _ => hrest

private theorem capped_perform (cap : Nat) (call : HostCall) : Capped cap call.perform := by
  have hrun : ∀ {α : Type} {x : Run α} {f : α → Reply}, Oblivious cap x →
      Capped cap (do return f (← unlocated x)) := fun hx =>
    Capped.after (fun _ hm => (hx hm).unlocated) fun _ => (Oblivious.pure _).capped
  have hchange : ∀ {f : Machine → Machine}, (∀ m, Matches cap m (f m) (f (m.tighten cap))) →
      Capped cap (ε := Failure) (do
        modify f
        return Reply.done) := fun hf =>
    Capped.after (.modify hf) fun _ => (Oblivious.pure _).capped
  cases call with
  | step => exact .before capped_step fun _ _ _ _ => ⟨.pure _, fun _ => .pure _⟩
  | finish outcome => exact .after (oblivious_finishCommand _) fun _ => (Oblivious.pure _).capped
  | readInt | readStr | readLabel | readVarRef => exact hrun (oblivious_operand _)
  | skipOperands | registerHost name | recordFile name =>
    exact hchange fun _ => ⟨rfl, rfl, rfl, rfl⟩
  | eatKeyword word => exact hrun (oblivious_eatKeyword _)
  | eatToken token => exact hrun (oblivious_eatToken _)
  | startAt name => exact hrun (oblivious_jumpTo _)
  | edit change => exact hrun (oblivious_updateStore _)
  | savePersistent => exact hrun oblivious_savePersistent
  | saveSlot slot resume description => exact hrun (oblivious_saveSlot _ _ _)
  | loadSlot slot => exact hrun (oblivious_loadSlot _)
  | restore save => exact hrun (oblivious_resume _)

private theorem lenient_serve (hm : m.Lenient) (call : HostCall) : (m.serve call).2.Lenient := by
  rw [serve_snd]
  exact (capped_perform 0 call hm).lenient

private theorem warningCount_le_serve (hm : m.Lenient) (call : HostCall) :
    m.warningCount ≤ (m.serve call).2.warningCount := by
  rw [serve_snd]
  exact (capped_perform 0 call hm).warnings

/-- A call without a warning that leaves not too much open has the same answer on the tightened
machine. -/
theorem serve_tighten (hm : m.Lenient) {call : HostCall}
    (hquiet : (m.serve call).2.warningCount = m.warningCount)
    (hdepth : (m.serve call).2.nesting.depth ≤ cap) :
    (m.tighten cap).serve call = ((m.serve call).1, (m.serve call).2.tighten cap) := by
  rw [serve_snd] at hquiet hdepth
  have h := (capped_perform cap call hm).agrees hquiet hdepth
  simp only [serve, h]
  cases call.perform m <;> rfl

private theorem warningCount_le_serveAll (hm : m.Lenient) (calls : List HostCall) :
    m.warningCount ≤ (m.serveAll calls).2.warningCount := by
  induction calls generalizing m with
  | nil => exact Nat.le_refl _
  | cons call calls ih =>
    rw [serveAll_cons]
    exact Nat.le_trans (warningCount_le_serve hm call) (ih (lenient_serve hm call))

/-- Calls without a warning that never leave too much open have the same answers on the tightened
machine. -/
theorem serveAll_tighten (hm : m.Lenient) {calls : List HostCall}
    (hquiet : (m.serveAll calls).2.warningCount = m.warningCount)
    (hdepth : ∀ n, (m.serveAll (calls.take n)).2.nesting.depth ≤ cap) :
    (m.tighten cap).serveAll calls = ((m.serveAll calls).1, (m.serveAll calls).2.tighten cap) := by
  induction calls generalizing m with
  | nil => rfl
  | cons call calls ih =>
    have hm' := lenient_serve hm call
    have hfirst : (m.serve call).2.warningCount = m.warningCount := by
      refine Nat.le_antisymm ?_ (warningCount_le_serve hm call)
      rw [← hquiet, serveAll_cons]
      exact warningCount_le_serveAll hm' calls
    have hcall := serve_tighten hm hfirst (hdepth 1)
    have hrest := ih hm' (hquiet.trans hfirst.symm) fun n => hdepth (n + 1)
    rw [serveAll_cons, serveAll_cons, hcall, hrest]

/-! ## Loading -/

private theorem loadPersistent_tighten (m : Machine) :
    (m.tighten cap).loadPersistent = m.loadPersistent.map (tighten cap) := by
  have hlabels : (m.tighten cap).loadLog labelLogFile (m.tighten cap).labelLog =
      m.loadLog labelLogFile m.labelLog := rfl
  have hfiles : (m.tighten cap).loadLog fileLogFile (m.tighten cap).fileLog =
      m.loadLog fileLogFile m.fileLog := rfl
  have hglobals : (m.tighten cap).loadGlobals = m.loadGlobals := rfl
  simp only [loadPersistent, hlabels, hfiles, hglobals]
  cases m.loadLog labelLogFile m.labelLog with
  | error fault => rfl
  | ok labelLog =>
    cases m.loadLog fileLogFile m.fileLog with
    | error fault => rfl
    | ok fileLog => cases m.loadGlobals <;> rfl

section

variable {script : Script} {settings : Settings} {saves : SaveArea}
  {entropy entropy' : RandomSource} {library : Library}

/-- A machine that is loaded without strictness is lenient, and has given no warning yet. -/
theorem lenient_load
    (h : load script { settings with strict := false, maxNesting := none } saves entropy library =
      .ok m) : m.Lenient ∧ m.warningCount = 0 := by
  obtain ⟨labelLog, fileLog, store, -, -, -, rfl⟩ := loadPersistent_eq_ok h
  exact ⟨⟨rfl, rfl⟩, rfl⟩

/-- Strictness and the cap make no difference to what is loaded, if the random source is the same. A
seed gives the same source by itself. -/
theorem load_tighten (hsource : settings.randomSeed = none → entropy' = entropy) :
    load script { settings with strict := true, maxNesting := some cap } saves entropy' library =
      (load script { settings with strict := false, maxNesting := none } saves entropy library).map
        (tighten cap) := by
  have hrandom : (settings.randomSeed.map library.generator).getD entropy' =
      (settings.randomSeed.map library.generator).getD entropy := by
    cases hseed : settings.randomSeed with
    | none => exact hsource hseed
    | some seed => rfl
  have hfresh : fresh script { settings with strict := true, maxNesting := some cap } saves entropy'
      library = (fresh script { settings with strict := false, maxNesting := none } saves entropy
        library).tighten cap := by
    simp only [fresh, hrandom]
    rfl
  rw [load, hfresh, loadPersistent_tighten, load]

/-- **Strict mode and the cap on nesting only add failures.** Take any script and any calls of the
host, and two machines with the same random source: a seed gives it to both, and without a seed the
second one is to draw from what the first one draws from. If the calls give no warning on the
machine without strictness, and never leave more than `cap` calls and loops open, then the machine
that is strict and capped at `cap` can be loaded too, gives the same answer to every call and ends
in the same state. -/
theorem strictness_only_adds_failures {m : Machine} (cap : Nat) (calls : List HostCall)
    (hsource : settings.randomSeed = none → entropy' = entropy)
    (hload : load script { settings with strict := false, maxNesting := none } saves entropy
      library = .ok m)
    (hquiet : (m.serveAll calls).2.warningCount = 0)
    (hdepth : ∀ n, (m.serveAll (calls.take n)).2.nesting.depth ≤ cap) :
    ∃ tight,
      load script { settings with strict := true, maxNesting := some cap } saves entropy' library =
        .ok tight ∧
      tight = m.tighten cap ∧
      (tight.serveAll calls).1 = (m.serveAll calls).1 ∧
      (tight.serveAll calls).2 = (m.serveAll calls).2.tighten cap := by
  obtain ⟨hm, hzero⟩ := lenient_load hload
  refine ⟨m.tighten cap, ?_, rfl, ?_⟩
  · rw [load_tighten hsource, hload]
    rfl
  · rw [serveAll_tighten hm (hquiet.trans hzero.symm) hdepth]
    exact ⟨rfl, rfl⟩

end

/-- A call of a label and the return from it. -/
def callAndReturn : Script where
  bytes := (Bytes.ofText "gosub *a\n*a\nreturn\n").toArray
  encoding := .utf8

/-- The lenient machine at the start of this script. -/
def lenientStart : Machine :=
  fresh callAndReturn { variableSlots := 8 } .absent

/-- The steps through the call and back. -/
def throughCall : List HostCall :=
  [.step, .step, .step, .step]

/-- A call and the return from it need one frame, and are the same with a cap of one. -/
theorem callAndReturn_strictly :
    (lenientStart.serveAll throughCall).2.warningCount = 0 ∧
      (lenientStart.serveAll (throughCall.take 1)).2.nesting.depth = 1 ∧
      ∃ tight, load callAndReturn { variableSlots := 8, strict := true, maxNesting := some 1 }
          .absent = .ok tight ∧
        tight = lenientStart.tighten 1 ∧
        (tight.serveAll throughCall).1 = (lenientStart.serveAll throughCall).1 ∧
        (tight.serveAll throughCall).2 = (lenientStart.serveAll throughCall).2.tighten 1 := by
  have hload : load callAndReturn
      { ({ variableSlots := 8 } : Settings) with strict := false, maxNesting := none } .absent =
        .ok lenientStart := rfl
  have hquiet : (lenientStart.serveAll throughCall).2.warningCount = 0 := by decide +kernel
  have hdepth : ∀ n, (lenientStart.serveAll (throughCall.take n)).2.nesting.depth ≤ 1 := by
    intro n
    match n with
    | 0 | 1 | 2 | 3 => decide +kernel
    | n + 4 =>
      rw [List.take_of_length_le (show throughCall.length ≤ n + 4 from Nat.le_add_left _ _)]
      decide +kernel
  refine ⟨hquiet, by decide +kernel, ?_⟩
  exact strictness_only_adds_failures 1 throughCall (fun _ => rfl) hload hquiet hdepth

end NovelScript.Machine
