import NovelScript.Proofs.Machine.Intact
import NovelScript.Proofs.Machine.Returning

/-!
# UTF-8 is never cut

A script that is UTF-8 text is loaded, no variable has a string yet, and a host drives the machine
without ever loading a saved game. Then the machine is intact in every state that it comes to, and
all text that it delivers is UTF-8: whatever the script does with its own bytes, no character is
cut.

A statement that would load a game and finds none, or cannot load it, is one that loads nothing.
-/

namespace NovelScript

open NovelScript.Action (Atomic Ends Gives Keeps)
open NovelScript.Bytes (IsText isText_nil)

namespace Machine

variable {α β : Type} {script : Script} {m : Machine}

/-! ## Statements that load a game -/

/-- Whether the statement at the current address loads a saved game: it is the command for that, and
the command goes on where the game was saved. -/
def statementLoads (m : Machine) : Bool :=
  match (m.script.statementAt m.pc m.pretextHook.isSome).kind with
  | .command word =>
    match m.commands.resolve word with
    | .builtin .loadgame =>
      match loadGame (m.atCommand word) with
      | .ok .stay _ => true
      | _ => false
    | _ => false
  | _ => false

/-- Whether the next step loads a saved game. -/
def loadsGame (m : Machine) : Bool :=
  match m.settled? with
  | some settled => !settled.ended && !settled.inText && settled.statementLoads
  | none => false

namespace Intact

/-- If the command that loads a game does not do so, the machine stays intact. -/
theorem ends_loadGame (hm : Intact script m) (h : ∀ next, loadGame m ≠ .ok .stay next) :
    Ends (Intact script) (fun _ => True) (loadGame m) := by
  have hread := keeps_readInt hm
  cases hrun : readInt m with
  | error fault middle =>
    rw [Action.after_of_error hrun] at hread
    rw [loadGame, Action.bind_of_error hrun]
    exact hread
  | ok slot middle =>
    rw [Action.after_of_ok hrun] at hread
    have hrest : loadGame m = (Action.ofExcept middle.requireSaves >>= fun _ =>
        if middle.slotExists slot then loadSlot slot >>= fun _ => pure .stay
        else warn (.missingSlot slot) >>= fun _ => pure .advance : Run Outcome) middle :=
      Action.bind_of_ok hrun _
    rw [hrest] at h ⊢
    cases hsaves : middle.requireSaves with
    | error fault => exact hread
    | ok _ =>
      rw [hsaves] at h
      change ∀ next, (if middle.slotExists slot then _ else _ : Run Outcome) middle ≠ _ at h
      show Ends _ _ ((if middle.slotExists slot then _ else _ : Run Outcome) middle)
      by_cases hexists : middle.slotExists slot = true
      · rw [if_pos hexists] at h ⊢
        cases hload : loadSlot slot middle with
        | ok _ next => exact absurd (Action.bind_of_ok hload _) (h next)
        | error fault next =>
          rw [Action.bind_of_error hload]
          exact atomic_loadSlot slot hload ▸ hread
      · rw [if_neg hexists]
        exact (Gives.andThen (keeps_warn _) fun _ => .pure trivial) hread

/-- A command word that loads no game leaves the machine intact. -/
theorem ends_runWord (hm : Intact script m) (h : m.statementLoads = false) {word : CommandWord}
    (hkind : (m.script.statementAt m.pc m.pretextHook.isSome).kind = .command word) :
    Ends (Intact script) Event.Readable (runStatement m) := by
  obtain rfl := hm.script_eq
  obtain ⟨hstart, hnext⟩ := hm.scans.statementAt hm.pc m.pretextHook.isSome
  let named : Machine := { m with
    statementStart := (m.script.statementAt m.pc m.pretextHook.isSome).start
    statementName := some word.name }
  have hnamed : Intact m.script named := { hm with statementStart := hstart }
  have hmark (addr : Nat) : Keeps (Intact m.script) (discard (markRead addr)) :=
    (keeps_markRead addr).discard
  cases hresolve : m.commands.resolve word with
  | builtin command =>
    have hat : Intact m.script (m.atCommand word) :=
      { hm with statementStart := hstart, pc := hnext }
    rw [runStatement_of_builtin hkind hresolve]
    refine Ends.bind (P := fun _ => True) ?_ fun outcome _ => gives_complete outcome
    by_cases hcommand : command = .loadgame
    · subst hcommand
      refine hat.ends_loadGame fun next hstay => ?_
      simp [statementLoads, hkind, hresolve, hstay] at h
    · exact Gives.ofKeeps (keeps_execute hcommand) hat
  | subroutine label =>
    rw [runStatement_of_word hkind]
    show Ends _ _ ((match m.commands.resolve word with | _ => _ : Run Event) named)
    rw [hresolve]
    refine (Gives.andThen (hmark _) fun _ => .get fun m' hm' => ?_) hnamed
    have hreturn := hm'.statementEnd hnext
    refine .andThen (keeps_pushFrame ?_) fun _ => .andThen (keeps_jumpTo _) fun _ => .pure trivial
    simpa [Frame.addresses] using ⟨hreturn, hnext⟩
  | host name =>
    rw [runStatement_of_word hkind]
    show Ends _ _ ((match m.commands.resolve word with | _ => _ : Run Event) named)
    rw [hresolve]
    refine (Gives.andThen (hmark _) fun _ => ?_) hnamed
    exact .andThen (.modify fun _ hm => { hm with pc := hnext }) fun _ => .pure trivial
  | unknown =>
    rw [runStatement_of_word hkind]
    show Ends _ _ ((match m.commands.resolve word with | _ => _ : Run Event) named)
    rw [hresolve]
    refine (Gives.ite (fun _ => .throw _) fun _ => ?_) hnamed
    exact .andThen (.modify fun _ hm => { hm with pc := hstart }) fun _ => gives_readText

/-- A statement that loads no game leaves the machine intact, and delivers no other text than
UTF-8. -/
theorem ends_runStatement (hm : Intact script m) (h : m.statementLoads = false) :
    Ends (Intact script) Event.Readable (runStatement m) := by
  by_cases hword : ∃ word, (m.script.statementAt m.pc m.pretextHook.isSome).kind = .command word
  · obtain ⟨word, hkind⟩ := hword
    exact hm.ends_runWord h hkind
  · obtain rfl := hm.script_eq
    obtain ⟨hstart, hnext⟩ := hm.scans.statementAt hm.pc m.pretextHook.isSome
    let begun : Machine := { m with
      statementStart := (m.script.statementAt m.pc m.pretextHook.isSome).start
      statementName := none }
    have hbegun : Intact m.script begun := { hm with statementStart := hstart }
    show Ends _ _ ((warnAll _ >>= fun _ => _ : Run Event) begun)
    refine (Gives.andThen (keeps_warnAll _) fun _ => ?_) hbegun
    cases hkind : (m.script.statementAt m.pc m.pretextHook.isSome).kind with
    | command word => exact absurd ⟨word, hkind⟩ hword
    | endOfScript => exact .andThen keeps_finishProgram fun _ => .pure trivial
    | comment | endOfLine => exact .andThen (keeps_moveTo hnext) fun _ => .pure trivial
    | sectionMarker =>
      refine .andThen (.modify fun _ hm => ?_) fun _ => .pure trivial
      exact { hm with pc := hnext, lastSection := by simpa using hnext }
    | label name =>
      exact .andThen (.modify fun _ hm => { hm with pc := hnext }) fun _ => .pure trivial
    | pretextTag tag => exact gives_runTag hnext (Script.isText_tag hm.legible hm.pc hkind)
    | text => exact .andThen (.modify fun _ hm => { hm with pc := hstart }) fun _ => gives_readText

/-! ## Calls of the host -/

private theorem ends_located {P : α → Prop} {action : Run α}
    (h : Ends (Intact script) P (action m)) : Ends (Intact script) P (located action m) := by
  unfold located
  cases hrun : action m with
  | ok a next | error fault next =>
    rw [hrun] at h
    exact h

private theorem ends_unlocated {P : α → Prop} {action : Run α}
    (h : Ends (Intact script) P (action m)) : Ends (Intact script) P (unlocated action m) := by
  unfold unlocated
  cases hrun : action m with
  | ok a next | error fault next =>
    rw [hrun] at h
    exact h

private theorem gives_finishCommand (outcome : Outcome) :
    Gives (Intact script) Event.Readable (finishCommand outcome) := by
  refine .get fun m _ => .ite (fun _ => ?_) fun _ => .throw _
  refine .andThen (.modify fun _ hm => { hm with }) fun _ => ?_
  exact fun _ hm => ends_located (gives_complete outcome hm)

/-- Finishing a command of the host leaves the machine intact. -/
theorem settled (hm : Intact script m) {settled : Machine} (h : m.settled? = some settled) :
    Intact script settled := by
  unfold settled? at h
  split at h
  · have hfinished := gives_finishCommand .advance hm
    split at h
    · next hfinish =>
      cases h
      rw [hfinish] at hfinished
      exact hfinished.1
    · cases h
  · cases h
    exact hm

/-- So does a step that loads no game. -/
theorem ends_step (hm : Intact script m) (h : m.loadsGame = false) :
    Ends (Intact script) Event.Readable (step m) := by
  unfold loadsGame at h
  cases hsettled : m.settled? with
  | none =>
    obtain ⟨failure, next, hfinish, hstep⟩ := step_of_not_settled hsettled
    have hfinished := gives_finishCommand .advance hm
    rw [hfinish] at hfinished
    rw [hstep]
    exact hfinished
  | some settled =>
    have hm' := hm.settled hsettled
    rw [hsettled] at h
    rw [step_of_settled? hsettled]
    show Ends _ _ ((if settled.ended then _ else _ : Located Event) settled)
    by_cases hended : settled.ended = true
    · rw [if_pos hended]
      exact ⟨hm', trivial⟩
    · rw [if_neg hended]
      by_cases htext : settled.inText = true
      · rw [if_pos htext]
        exact ends_located (gives_readText hm')
      · rw [if_neg htext]
        refine ends_located (hm'.ends_runStatement ?_)
        simpa [hended, htext] using h

end Intact

/-- All strings that a call gives back are texts. -/
def Reply.Readable : Reply → Prop
  | event shown => shown.Readable
  | value operand => operand.Meets IsText
  | done | label _ | ref _ | found _ => True

/-- The call loads no saved game and edits no variable, and the punctuation that it asks for is a
text. -/
def HostCall.Plain (m : Machine) : HostCall → Prop
  | step => m.loadsGame = false
  | eatToken token => IsText token
  | edit _ | loadSlot _ | restore _ => False
  | _ => True

namespace Intact

private theorem ends_reply {P : α → Prop} {action : Run α} {f : α → Reply}
    (h : Gives (Intact script) P action) (hf : ∀ a, P a → (f a).Readable) (hm : Intact script m) :
    Ends (Intact script) Reply.Readable ((do return f (← unlocated action) : Located Reply) m) :=
  (ends_unlocated (h hm)).bind fun a ha => .pure (hf a ha)

/-- A call that loads no game leaves the machine intact, and gives back texts only. -/
theorem ends_perform (hm : Intact script m) {call : HostCall} (hcall : call.Plain m) :
    Ends (Intact script) Reply.Readable (call.perform m) := by
  cases call with
  | step => exact (hm.ends_step hcall).bind fun _ hevent => .pure hevent
  | finish outcome => exact (gives_finishCommand outcome hm).bind fun _ hevent => .pure hevent
  | readInt => exact ends_reply (.ofKeeps keeps_readInt) (fun _ _ => trivial) hm
  | readStr => exact ends_reply gives_readStr (fun _ htext => htext) hm
  | readLabel => exact ends_reply (.ofKeeps keeps_readLabel) (fun _ _ => trivial) hm
  | readVarRef => exact ends_reply (.ofKeeps keeps_readVarRef) (fun _ _ => trivial) hm
  | skipOperands => exact ⟨{ hm with pc := hm.statementEnd hm.pc }, trivial⟩
  | eatKeyword word => exact ends_reply (.ofKeeps (keeps_eatKeyword word)) (fun _ _ => trivial) hm
  | eatToken token => exact ends_reply (.ofKeeps (keeps_eatToken hcall)) (fun _ _ => trivial) hm
  | startAt name => exact ends_reply (.ofKeeps (keeps_jumpTo name)) (fun _ _ => trivial) hm
  | registerHost name => exact ⟨{ hm with }, trivial⟩
  | recordFile name => exact ⟨{ hm with }, trivial⟩
  | savePersistent => exact ends_reply (.ofKeeps keeps_savePersistent) (fun _ _ => trivial) hm
  | saveSlot slot resume description =>
    exact ends_reply (.ofKeeps (keeps_saveSlot slot resume description)) (fun _ _ => trivial) hm
  | edit change => exact absurd hcall id
  | loadSlot slot => exact absurd hcall id
  | restore save => exact absurd hcall id

private theorem serve (hm : Intact script m) {call : HostCall} (hcall : call.Plain m) :
    Intact script (m.serve call).2 ∧ ∀ reply, (m.serve call).1 = .ok reply → reply.Readable := by
  have hends := hm.ends_perform hcall
  unfold Machine.serve
  cases hrun : call.perform m with
  | ok reply next =>
    rw [hrun] at hends
    refine ⟨hends.1, ?_⟩
    rintro _ ⟨⟩
    exact hends.2
  | error failure next =>
    rw [hrun] at hends
    exact ⟨hends, nofun⟩

end Intact

/-! ## Runs -/

/-- A script that is UTF-8 text was loaded, and no variable has a string yet. -/
structure StartsBlank (m : Machine) : Prop where
  /-- The script is UTF-8 text. -/
  legible : m.script.Legible
  /-- It was loaded. -/
  loaded : ∃ settings saves entropy library,
    Machine.load m.script settings saves entropy library = .ok m
  /-- No variable has a string. -/
  blank : ∀ n, m.store.str n = []

private theorem StartsBlank.intact (h : StartsBlank m) : Intact m.script m := by
  obtain ⟨hlegible, ⟨settings, saves, entropy, library, hload⟩, hblank⟩ := h
  have hclean : m.store.Clean := ⟨wellFormed_load hload, fun n => hblank n ▸ isText_nil⟩
  have hzero := Script.boundary_zero hlegible
  generalize m.script = script at hload hlegible hzero
  obtain ⟨labelLog, fileLog, store, -, -, -, rfl⟩ := loadPersistent_eq_ok hload
  exact {
    legible := hlegible
    script_eq := rfl
    labels := rfl
    pc := hzero
    statementStart := hzero
    lastSection := by simp [fresh]
    frames := List.forall_mem_nil _
    store := hclean
    aliases := List.forall_mem_nil _
    tag := isText_nil
    markers := by
      show ∀ marker ∈
        script.encoding.chars (script.encoding.encode settings.clickMarkers library.table), _
      rw [hlegible.encoding]
      exact Encoding.isText_of_mem_chars (Encoding.isText_encode _ _) }

/-- Steps that load no game are part of such a run. -/
theorem Driven.steps (h : Driven StartsBlank HostCall.Plain m) (n : Nat)
    (hplain : ∀ k < n, (stepped^[k] m).loadsGame = false) :
    Driven StartsBlank HostCall.Plain (stepped^[n] m) := by
  induction n with
  | zero => exact h
  | succ n ih =>
    rw [Function.iterate_succ_apply']
    exact (ih fun k hk => hplain k (Nat.lt_succ_of_lt hk)).serve .step (hplain n (Nat.lt_succ_self n))

/-- In every state of a run in which no game is loaded the machine is intact. -/
theorem Driven.intact (h : Driven StartsBlank HostCall.Plain m) : Intact m.script m := by
  induction h with
  | start h => exact h.intact
  | serve h call hcall ih =>
    have hnext := (ih.serve hcall).1
    rw [hnext.script_eq]
    exact hnext

/-- **UTF-8 is never cut.** Let a script that is UTF-8 text be loaded while no variable has a
string, and let a host drive it without loading a saved game. In every state that it comes to, a
character begins at the next byte and at every address of a frame, and every string of a variable,
every string alias, the last tag and every click marker are texts; and whatever text a call then
delivers is UTF-8. -/
theorem text_never_cut (h : Driven StartsBlank HostCall.Plain m) :
    Intact m.script m ∧ ∀ call run, HostCall.Plain m call →
      (m.serve call).1 = .ok (.event (.text run)) → IsText run.text := by
  refine ⟨h.intact, fun call run hcall hserve => ?_⟩
  exact (h.intact.serve hcall).2 _ hserve

/-- One character out of three is cut out of a string and shown, with a number behind it, and a
handler interrupts the line. -/
def cutOutAndShown : Script where
  bytes := (Bytes.ofText
    "mov $1,\"日本語\":mid $2,$1,1,1:textgosub *h\n$2は%3@語\n*h\nreturn\n").toArray
  encoding := .utf8

/-- The script at its start. -/
def atStart : Machine :=
  fresh cutOutAndShown { variableSlots := 4, globalBorder := some 1 } (.folder {})

/-- The script in front of its line of text. -/
def beforeLine : Machine :=
  stepped^[4] atStart

/-- The line is shown up to the pause, and the handler goes back to the character behind it. -/
theorem text_never_cut_cutOutAndShown :
    Intact beforeLine.stepped.script beforeLine.stepped ∧ beforeLine.stepped.nesting.frames =
        [.call (.ofBookmark .textGosub { addr := 54, narrow := false, stop := .clickWait })] ∧
      ∃ run, (beforeLine.serve .step).1 = .ok (.event (.text run)) ∧
        run.text = Bytes.ofText "本は０" ∧ IsText run.text := by
  have hstart : StartsBlank atStart := by
    refine ⟨⟨rfl, _, List.toList_toArray⟩, ⟨atStart.settings, .folder {}, _, _, rfl⟩, fun n => ?_⟩
    show ((Store.blank 4 1).slot n).str.getD [] = []
    rw [Store.slot_blank]
    rfl
  have hplain : ∀ k < 5, (stepped^[k] atStart).loadsGame = false := by decide +kernel
  have hbefore : Driven StartsBlank HostCall.Plain beforeLine :=
    (Driven.start hstart).steps 4 fun k hk => hplain k (Nat.lt_succ_of_lt hk)
  have hstep : HostCall.step.Plain beforeLine := hplain 4 (Nat.lt_succ_self 4)
  let run : TextRun :=
    { pieces := [.chars (Bytes.ofText "本は０")], stop := .clickWait, start := 46, handled := true }
  obtain ⟨hrun, hframes⟩ : (beforeLine.serve .step).1 = .ok (.event (.text run)) ∧
      beforeLine.stepped.nesting.frames =
        [.call (.ofBookmark .textGosub { addr := 54, narrow := false, stop := .clickWait })] := by
    decide +kernel
  refine ⟨(text_never_cut (hbefore.serve .step hstep)).1, hframes, ?_⟩
  exact ⟨run, hrun, by decide, (text_never_cut hbefore).2 .step run hstep hrun⟩

end Machine

end NovelScript
