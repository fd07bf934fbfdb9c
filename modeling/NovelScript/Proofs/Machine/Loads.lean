import NovelScript.Proofs.Machine.Upcoming

/-!
# Games that are loaded

A game is loaded by a command of the script, out of a save slot, or from a save that the host has at
hand. Whichever way it is done, there are two cases: no game is found, and the machine only moves
on; or the machine goes on with one of the games that the call offers, and until then it has kept
its variables, its open calls and loops, and its save files.
-/

namespace NovelScript.Machine

open NovelScript.Action (Keeps Leads)

variable {script : Script} {saves : SaveArea} {store : Store} {first m : Machine}

/-- The game is in the file of a save slot. -/
def Stores (m : Machine) (slot : Int32) (save : Save) : Prop :=
  ∃ bytes, m.readSaved? (Save.fileName slot) = some bytes ∧ Save.ofBytes bytes = .ok save

/-- The games that a call of the host may load. -/
def HostCall.Offers (m : Machine) (call : HostCall) (save : Save) : Prop :=
  match call with
  | step => HostCall.step.loads m = true ∧ ∃ slot, m.Stores slot save
  | loadSlot slot => m.Stores slot save
  | restore given => save = given
  | _ => False

/-! ## Until the game is loaded -/

/-- No game has been loaded yet, and variables and save files are still the same. -/
structure Underway (script : Script) (first m : Machine) : Prop where
  /-- Nothing was opened or closed. -/
  evolves : Evolves .still script first m
  /-- The save files are the same. -/
  saves : m.saves = first.saves
  /-- The variables are the same. -/
  store : m.store = first.store

private theorem Underway.refl (h : m.core.Inside script) : Underway script m m :=
  ⟨.refl h, rfl, rfl⟩

/-- What is done to the core is known from elsewhere, and it remains what else is kept. -/
theorem keeps_underway {α : Type} {x : Run α} (hx : Keeps (Evolves .still script first) x)
    (hsame : ∀ saves store, Keeps (fun m => m.saves = saves ∧ m.store = store) x) :
    Keeps (Underway script first) x := by
  intro m hm
  obtain ⟨hsaves, hstore⟩ := hsame m.saves m.store ⟨rfl, rfl⟩
  exact ⟨hx hm.evolves, hsaves.trans hm.saves, hstore.trans hm.store⟩

private theorem same_readInt : Keeps (fun m => m.saves = saves ∧ m.store = store) readInt :=
  keeps_operand_of (fun _ _ h => h) (fun _ _ _ h => h) _

private theorem same_endStatement :
    Keeps (fun m => m.saves = saves ∧ m.store = store) endStatement :=
  keeps_endStatement_of (fun _ _ h => h) fun _ _ _ h => h

/-- Finishing a command of the host keeps the variables and the save files. -/
theorem same_of_settled? {settled : Machine} (h : m.settled? = some settled) :
    settled.saves = m.saves ∧ settled.store = m.store :=
  of_settled? (I := fun n => n.saves = m.saves ∧ n.store = m.store) (fun _ _ h => h)
    (fun _ _ _ h => h) ⟨rfl, rfl⟩ h

/-! ## Loading -/

/-- No game was found, or the machine goes on with one that is offered. -/
def Reloaded (script : Script) (first : Machine) (offers : Save → Prop) (m : Machine) : Prop :=
  Evolves .still script first m ∨ ∃ save middle, offers save ∧ Underway script first middle ∧
    middle.restore save = .ok m

private theorem Underway.reloaded {offers : Save → Prop} (h : Underway script first m) :
    Reloaded script first offers m :=
  .inl h.evolves

private theorem leads_loadSlot {offers : Save → Prop} {slot : Int32}
    (hoffers : ∀ save, first.Stores slot save → offers save) :
    Leads (Underway script first) (Reloaded script first offers) (loadSlot slot) := by
  refine .look fun m hm => ?_
  refine Keeps.ofExcept_andThen (I := Reloaded script first offers) hm.reloaded fun _ _ => ?_
  cases hread : m.readSaved? (Save.fileName slot) with
  | none => exact hm.reloaded
  | some bytes =>
    refine Keeps.ofExcept_andThen (I := Reloaded script first offers) hm.reloaded fun save hsave => ?_
    refine Keeps.ofExcept_andThen (I := Reloaded script first offers) hm.reloaded ?_
    refine fun restored hrestored => .inr ⟨save, m, hoffers save ⟨bytes, ?_, hsave⟩, hm, hrestored⟩
    rw [← hread, readSaved?, readSaved?, hm.saves]

private theorem leads_resume (save : Save) :
    Leads (Underway script first) (Reloaded script first (· = save)) (resume save) := by
  refine .look fun m hm => ?_
  refine Keeps.ofExcept_andThen (I := Reloaded script first (· = save)) hm.reloaded ?_
  exact fun restored hrestored => .inr ⟨save, m, rfl, hm, hrestored⟩

/-- After the command of the script that loads a game nothing more is done if there was one. -/
theorem leads_loadGame {offers : Save → Prop}
    (hoffers : ∀ slot save, first.Stores slot save → offers save) :
    Leads (Underway script first) (Reloaded script first offers) (loadGame >>= complete) := by
  have hreloaded : ∀ m, Underway script first m → Reloaded script first offers m :=
    fun _ h => h.reloaded
  have hread : Keeps (Underway script first) readInt :=
    keeps_underway keeps_readInt fun _ _ => same_readInt
  have hend : Keeps (Underway script first) (complete .advance) :=
    .bind (keeps_underway keeps_endStatement fun _ _ => same_endStatement) fun _ => .pure _
  simp only [loadGame, bind_assoc]
  refine .keep hreloaded hread fun slot => .get fun m _ => .keep hreloaded .ofExcept fun _ => ?_
  split
  · rw [bind_assoc]
    exact .andThen (leads_loadSlot (hoffers slot)) fun _ => .pure _
  · rw [bind_assoc]
    have hwarn : Keeps (Underway script first) (warn (.missingSlot slot)) :=
      keeps_underway (keeps_warn _) fun _ _ => keeps_warn_of (fun _ _ _ h => h) _
    exact .keep hreloaded hwarn fun _ m hm => (hend hm).reloaded

/-- A step that executes the command finds no game, or goes on with one out of a save file. -/
theorem reloaded_step (hm : m.core.Inside m.script) (hloads : HostCall.step.loads m = true) :
    Reloaded m.script m (HostCall.step.Offers m) (Action.after step m) := by
  obtain ⟨⟨command, operands⟩, hupcoming, hload⟩ := (Option.any_eq_true _ _).mp hloads
  obtain rfl : command = .loadgame := by simpa using hload
  obtain ⟨settled, hsettled, hcommand, hafter⟩ := after_step_of_upcoming? hupcoming
  have hevolves : Evolves .still m.script m settled := (Evolves.refl hm).settled hsettled
  obtain ⟨hsaves, hstore⟩ := same_of_settled? hsettled
  have hoperands : operands ≤ m.script.size := hevolves.script_eq ▸ operands_le_size hcommand
  have hbegin : Underway m.script m { settled with
      statementStart := (settled.script.statementAt settled.pc settled.pretextHook.isSome).start
      statementName := none } := by
    obtain ⟨hstart, -⟩ := settled.script.statementAt_le_size settled.pc settled.pretextHook.isSome
    have hbound := hstart.trans_eq (congrArg Script.size hevolves.script_eq)
    exact ⟨hevolves.begin (statementStart_of_settled? hsettled) hbound rfl rfl, hsaves, hstore⟩
  have hmove : Keeps (Underway m.script m) (moveTo operands) :=
    keeps_underway (keeps_moveTo hoperands) fun _ _ => .modify fun _ h => h
  rw [hafter]
  refine runStatement_executes (I := Underway m.script m) hcommand hbegin ?_ ?_
    (fun _ h => h.reloaded) ?_
  · exact fun _ _ h => ⟨h.evolves.aside rfl rfl, h.saves, h.store⟩
  · exact fun _ _ h => ⟨h.evolves.aside rfl rfl, h.saves, h.store⟩
  · refine .keep (fun _ h => h.reloaded) hmove fun _ => ?_
    exact leads_loadGame fun slot save hstores => ⟨hloads, slot, hstores⟩

/-- A call that may load a game finds none, or goes on with one that it offers. -/
theorem reloaded_serve (hm : m.core.Inside m.script) {call : HostCall}
    (hloads : call.loads m = true) :
    Reloaded m.script m (call.Offers m) (m.serve call).2 := by
  rw [serve_snd]
  cases call with
  | loadSlot slot =>
    refine Keeps.andThen (I := Reloaded m.script m _) ?_ fun _ => .pure _
    rw [after_unlocated]
    exact leads_loadSlot (fun _ h => h) (Underway.refl hm)
  | restore save =>
    refine Keeps.andThen (I := Reloaded m.script m _) ?_ fun _ => .pure _
    rw [after_unlocated]
    exact leads_resume save (Underway.refl hm)
  | step =>
    refine Keeps.andThen (I := Reloaded m.script m _) ?_ fun _ => .pure _
    exact reloaded_step hm hloads
  | _ => cases hloads

/-! ## Calls -/

/-- What a call of the host can do: it acts as a script does, it edits the variables, or it goes on
with a game that it offers. -/
theorem serve_cases (hm : m.core.Inside m.script) (call : HostCall) :
    (∃ way : Nesting.Direction, way.fitting = true ∧ Evolves way m.script m (m.serve call).2) ∨
      (∃ change store, call = .edit change ∧ change.apply m.store = .ok store ∧
        (m.serve call).2 = { m with store }) ∨
      ∃ save middle, call.Offers m save ∧ Underway m.script m middle ∧
        middle.restore save = .ok (m.serve call).2 := by
  by_cases hedit : ∃ change, call = .edit change
  · obtain ⟨change, rfl⟩ := hedit
    obtain hsame | ⟨store, hstore, hnext⟩ := serve_edit_cases m change
    · refine .inl ⟨.still, rfl, ?_⟩
      rw [hsame]
      exact .refl hm
    · exact .inr (.inl ⟨change, store, rfl, hstore, hnext⟩)
  · cases hloads : call.loads m with
    | false =>
      have hfitting := fitting_direction hloads fun change h => hedit ⟨change, h⟩
      exact .inl ⟨_, hfitting, evolves_serve hm call⟩
    | true =>
      obtain hstill | hgame := reloaded_serve hm hloads
      · exact .inl ⟨.still, rfl, hstill⟩
      · exact .inr (.inr hgame)

end NovelScript.Machine
