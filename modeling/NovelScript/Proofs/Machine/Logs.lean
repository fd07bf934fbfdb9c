import NovelScript.Proofs.Machine.Reachable
import NovelScript.Proofs.NameLog

/-!
# The logs of one session in the next

Labels have ASCII names, so the labels that a session has passed come back in the next one. The
names of files are the host's: they come back exactly if all of them can be stored.
-/

namespace NovelScript

/-! ## Names of labels -/

namespace Script

variable {s : Script}

/-- The bytes of a name are name bytes. -/
theorem isNameByte_of_mem_slice {pos : Nat} {b : UInt8}
    (h : b ∈ s.slice pos (s.advanceWhile Byte.isNameByte pos)) : Byte.isNameByte b = true := by
  rw [advanceWhile_eq] at h
  have hahead : s.ahead pos = (s.ahead pos).takeWhile Byte.isNameByte ++
      (s.ahead pos).dropWhile Byte.isNameByte := List.takeWhile_append_dropWhile.symm
  rw [slice_append hahead] at h
  exact List.mem_takeWhile_imp h

/-- A name of the script is made of name bytes. -/
theorem exists_bytes_of_name? {pos : Nat} {found : String × Nat} (h : s.name? pos = some found) :
    ∃ bytes, found.1 = Bytes.toName bytes ∧ ∀ b ∈ bytes, Byte.isNameByte b = true := by
  obtain ⟨-, hname⟩ := Option.ite_none_right_eq_some.mp h
  cases hname
  exact ⟨_, rfl, fun b hb => isNameByte_of_mem_slice hb⟩

/-- So is the name of a label, if it has one. -/
theorem exists_bytes_of_label {addr : Nat} {tags : Bool} {name : String}
    (h : (s.statementAt addr tags).kind = .label name) :
    ∃ bytes, name = Bytes.toName bytes ∧ ∀ b ∈ bytes, Byte.isNameByte b = true := by
  rw [statementAt] at h
  split at h
  · cases h
  · -- One case for each kind of statement, in the order in which they are told apart.
    repeat' split at h
    · cases h
    · cases h
    · next found after hfound =>
      cases h
      cases hname? : s.name? (s.skipSeparators (min addr s.size) + 1) with
      | none =>
        rw [hname?] at hfound
        cases hfound
        exact ⟨[], rfl, by simp⟩
      | some found =>
        rw [hname?] at hfound
        cases hfound
        exact exists_bytes_of_name? hname?
    · cases h
    · rw [tagAt] at h
      split at h <;> cases h
    · simp [commandAt] at h
    · simp [commandAt] at h
    · cases h
    · cases h

end Script

namespace NameLog

/-- Names that are made of name bytes can be stored. -/
theorem storable_toName {bytes : Bytes} (h : ∀ b ∈ bytes, Byte.isNameByte b = true) :
    Storable (Bytes.toName bytes) := by
  have hascii : ∀ n : Fin 256, Byte.isNameByte (UInt8.ofFin n) = true →
      (Char.ofNat (Byte.lower (UInt8.ofFin n)).toNat).val.toNat < 0x80 := by
    decide +kernel
  rw [Storable, hiddenQuote_eq, Bytes.ofText, Bytes.toName, String.toList_ofList, List.mem_flatMap]
  rintro ⟨c, hc, hquote⟩
  obtain ⟨b, hb, rfl⟩ := List.mem_map.mp hc
  have hlt := hascii b.toFin (h b hb)
  refine Text.Utf8.continuation_notMem_encodeChar (by omega) ⟨.inl hlt, .inl ?_, .inl ?_⟩ hquote
  · exact Nat.lt_trans hlt (by omega)
  · exact Nat.lt_trans hlt (by omega)

end NameLog

/-! ## What the logs of a machine are -/

/-- The logs are in order, and the labels can be stored. -/
structure Logs.Kept (logs : Logs) : Prop where
  /-- The log of labels is in order. -/
  labels : logs.labels.Tidy
  /-- So is the log of files. -/
  files : logs.files.Tidy
  /-- The names of labels can be stored. -/
  storable : ∀ name ∈ logs.labels.names, NameLog.Storable name

private theorem Logs.Kept.step {script : Script} {told : Nat → Prop} {logs next : Logs}
    (h : logs.Kept) (hstep : Logs.Step script told logs next) : next.Kept := by
  cases hstep with
  | warn | note => exact ⟨h.labels, h.files, h.storable⟩
  | enableLabels => exact ⟨⟨h.labels.lower, h.labels.nodup⟩, h.files, h.storable⟩
  | enableFiles => exact ⟨h.labels, ⟨h.files.lower, h.files.nodup⟩, h.storable⟩
  | file name => exact ⟨h.labels, h.files.record name, h.storable⟩
  | label hlabel =>
    obtain ⟨bytes, rfl, hbytes⟩ := Script.exists_bytes_of_label hlabel
    have hname := NameLog.storable_toName hbytes
    exact ⟨h.labels.record _, h.files, NameLog.storable_record h.storable hname⟩

private theorem Logs.Kept.steps {script : Script} {told : Nat → Prop} {logs next : Logs}
    (h : logs.Kept)
    (hsteps : Relation.ReflTransGen (Logs.Step script told) logs next) : next.Kept := by
  induction hsteps with
  | refl => exact h
  | tail _ hstep ih => exact ih.step hstep

namespace Machine

variable {m after : Machine} {script : Script} {settings : Settings} {saves : SaveArea}
  {entropy : RandomSource} {library : Library}

/-- A loaded log is the one there was, or what was stored was merged into it. -/
theorem loadLog_eq_ok {name : String} {log loaded : NameLog} (h : m.loadLog name log = .ok loaded) :
    loaded = log ∨ ∃ bytes, loaded = (log.merge bytes).2 := by
  rw [loadLog] at h
  split at h
  · cases h
    exact .inl rfl
  · next bytes _ =>
    split at h
    · next merged hmerge =>
      cases h
      exact .inr ⟨bytes, by rw [hmerge]⟩
    · cases h

private theorem tidy_loadLog {name : String} {log loaded : NameLog}
    (h : m.loadLog name log = .ok loaded) (htidy : log.Tidy) : loaded.Tidy := by
  rcases loadLog_eq_ok h with rfl | ⟨bytes, rfl⟩
  · exact htidy
  · exact htidy.merge bytes

/-- The logs of a machine that was loaded are in order. -/
theorem keptLogs_load (h : Machine.load script settings saves entropy library = .ok m) :
    m.logs.Kept := by
  obtain ⟨labelLog, fileLog, store, hlabels, hfiles, -, rfl⟩ := loadPersistent_eq_ok h
  have hempty : NameLog.Tidy {} := ⟨by simp, by simp⟩
  refine ⟨tidy_loadLog hlabels hempty, tidy_loadLog hfiles hempty, ?_⟩
  rcases loadLog_eq_ok hlabels with rfl | ⟨bytes, rfl⟩
  · exact fun _ hname => absurd hname List.not_mem_nil
  · exact NameLog.storable_merge (fun _ hname => absurd hname List.not_mem_nil) bytes

/-- **The logs of a machine that can be reached are in order.** -/
theorem Reachable.keptLogs (h : Reachable m) : m.logs.Kept := by
  induction h with
  | load h => exact keptLogs_load h
  | serve h call ih => exact ih.steps (evolves_serve h.inside call).logs

/-! ## Storing the logs -/

/-- From `m` to `after` a file was written on a condition, and no other one. -/
structure WroteIf (condition : Bool) (name : String) (bytes : Bytes) (m after : Machine) :
    Prop where
  /-- There is a folder for saves. -/
  required : after.requireSaves = .ok ()
  /-- The file is there, if it was to be written. -/
  written : condition = true → after.readSaved? name = some bytes
  /-- The other files are as they were. -/
  others : ∀ other, other ≠ name → after.readSaved? other = m.readSaved? other

/-- A write that succeeds has written the file. -/
theorem wroteIf_of_writeSaved {name : String} {bytes : Bytes} (hrequired : m.requireSaves = .ok ())
    (h : writeSaved name bytes m = .ok () after) : WroteIf true name bytes m after := by
  have habsent : m.saves ≠ .absent := by
    intro habsent
    rw [requireSaves, habsent] at hrequired
    cases hrequired
  rw [writeSaved_eq] at h
  cases hrefusal : m.saves.refusals name 0 with
  | some failure =>
    rw [hrefusal] at h
    cases h
  | none =>
    rw [hrefusal] at h
    cases h
    refine ⟨?_, fun _ => SaveArea.read?_attempt_self habsent hrefusal, fun other hother =>
      SaveArea.read?_attempt_of_ne m.saves bytes hother⟩
    have hthere := mt (SaveArea.attempt_eq_absent_iff m.saves name bytes).mp habsent
    rw [requireSaves]
    cases hsaves : m.saves.attempt name bytes with
    | absent => exact absurd hsaves hthere
    | missing | folder => rfl

/-- So it is with a write on a condition. -/
theorem wroteIf_of_if {condition : Bool} {name : String} {bytes : Bytes}
    (hrequired : m.requireSaves = .ok ())
    (h : (if condition then writeSaved name bytes else pure () : Run Unit) m = .ok () after) :
    WroteIf condition name bytes m after := by
  cases condition with
  | true => exact wroteIf_of_writeSaved hrequired h
  | false =>
    obtain rfl : m = after := (EStateM.Result.ok.inj h).2
    exact ⟨hrequired, nofun, fun _ _ => rfl⟩

/-- And so it is in front of further actions. -/
theorem exists_wroteIf_of_doIf {condition : Bool} {name : String} {bytes : Bytes}
    {rest : Unit → Run Unit} (hrequired : m.requireSaves = .ok ())
    (h : (if condition then writeSaved name bytes >>= rest else rest () : Run Unit) m =
      .ok () after) :
    ∃ middle, WroteIf condition name bytes m middle ∧ rest () middle = .ok () after := by
  cases condition with
  | true =>
    obtain ⟨_, middle, hwrite, hrest⟩ := Action.exists_of_run_eq_ok h
    exact ⟨middle, wroteIf_of_writeSaved hrequired hwrite, hrest⟩
  | false => exact ⟨m, ⟨hrequired, nofun, fun _ _ => rfl⟩, h⟩

/-- **Where the persistent files could be written, they are there.** -/
theorem readSaved?_of_savePersistent (hrequired : m.requireSaves = .ok ())
    (h : savePersistent m = .ok () after) :
    (m.settings.trackRead = true → after.readSaved? marksFile = some m.marks.toBytes) ∧
    (m.labelLog.enabled = true → after.readSaved? labelLogFile = some m.labelLog.toBytes) ∧
    (m.fileLog.enabled = true → after.readSaved? fileLogFile = some m.fileLog.toBytes) ∧
    (m.keepGlobals = true →
      after.readSaved? Store.globalsFile = some m.store.globalsBytes) := by
  have hrun : (if m.settings.trackRead then writeSaved marksFile m.marks.toBytes >>= _ else _ :
      Run Unit) m = .ok () after := h
  obtain ⟨m₁, hmarks, hrun⟩ := exists_wroteIf_of_doIf hrequired hrun
  obtain ⟨m₂, hlabels, hrun⟩ := exists_wroteIf_of_doIf hmarks.required hrun
  obtain ⟨m₃, hfiles, hrun⟩ := exists_wroteIf_of_doIf hlabels.required hrun
  have hglobals := wroteIf_of_if hfiles.required hrun
  -- The four files have different names, so that none is written over by a later one.
  refine ⟨fun h => ?_, fun h => ?_, fun h => ?_, hglobals.written⟩
  · rw [hglobals.others _ (by decide), hfiles.others _ (by decide), hlabels.others _ (by decide),
      hmarks.written h]
  · rw [hglobals.others _ (by decide), hfiles.others _ (by decide), hlabels.written h]
  · rw [hglobals.others _ (by decide), hfiles.written h]

/-- A stored log is loaded as it was exactly if its names can be stored. -/
theorem loadLog_eq_ok_iff {name : String} {log : NameLog}
    (hread : m.readSaved? name = some log.toBytes) (htidy : log.Tidy)
    (hcount : log.names.length < UInt64.size) :
    m.loadLog name {} = .ok { names := log.names } ↔
      ∀ other ∈ log.names, NameLog.Storable other := by
  rw [← NameLog.merge_toBytes_iff htidy hcount, loadLog, hread]
  dsimp only
  constructor
  · intro h
    split at h
    · next merged hmerge =>
      cases h
      exact hmerge
    · cases h
  · intro h
    rw [h]

/-- A host that is told that the persistent files were written has had them written. -/
theorem savePersistent_of_serve (h : (m.serve .savePersistent).1 = .ok .done) :
    savePersistent m = .ok () (m.serve .savePersistent).2 := by
  simp only [serve, HostCall.perform, bind, EStateM.bind, unlocated] at h ⊢
  cases hrun : savePersistent m with
  | ok _ after => rfl
  | error fault after =>
    rw [hrun] at h
    cases h

/-- **Names come back from a stored log exactly if none of them has the byte that is stored as a
quote.** Of the names that are recorded in a log this is so wherever it is stored. Let the
persistent files of a machine that can be reached be written: in the next session the labels that
were passed come back, and the files that were used come back exactly if their names can be
stored. -/
theorem stored_names_come_back_iff (names : List String) (m : Machine) :
    ((NameLog.recorded names).names.length < UInt64.size →
      (({} : NameLog).merge (NameLog.recorded names).toBytes =
          (.ok (), { names := (NameLog.recorded names).names }) ↔
        ∀ name ∈ names, NameLog.Storable name)) ∧
    (Reachable m → m.requireSaves = .ok () → (m.serve .savePersistent).1 = .ok .done →
      m.labelLog.names.length < UInt64.size → m.fileLog.names.length < UInt64.size →
      ∀ (script : Script) (settings : Settings) (entropy : RandomSource) (library : Library),
        let next := fresh script settings (m.serve .savePersistent).2.saves entropy library
        (m.labelLog.enabled = true →
          next.loadLog labelLogFile {} = .ok { names := m.labelLog.names }) ∧
        (m.fileLog.enabled = true →
          (next.loadLog fileLogFile {} = .ok { names := m.fileLog.names } ↔
            ∀ name ∈ m.fileLog.names, NameLog.Storable name))) := by
  constructor
  · intro hcount
    rw [NameLog.merge_toBytes_iff (NameLog.tidy_recorded names) hcount,
      NameLog.storable_recorded_iff]
  · intro hm hrequired hdone hlabelCount hfileCount script settings entropy library next
    obtain ⟨hlabels, hfiles, hstorable⟩ := hm.keptLogs
    obtain ⟨-, hlabelsRead, hfilesRead, -⟩ :=
      readSaved?_of_savePersistent hrequired (savePersistent_of_serve hdone)
    constructor
    · intro henabled
      have hread : next.readSaved? labelLogFile = some m.labelLog.toBytes := hlabelsRead henabled
      exact (loadLog_eq_ok_iff hread hlabels hlabelCount).mpr hstorable
    · intro henabled
      have hread : next.readSaved? fileLogFile = some m.fileLog.toBytes := hfilesRead henabled
      exact loadLog_eq_ok_iff hread hfiles hfileCount

/-- A script that asks for both logs and passes a label. -/
def loggingScript : Script where
  bytes := (Bytes.ofText "labellog\nfilelog\n*Intro\nend\n").toArray
  encoding := .utf8

/-- The script after its label, when the host has used some files. -/
def afterLogging (names : List String) : Machine :=
  ((fresh loggingScript {} (.folder {})).serveAll
    (List.replicate 5 .step ++ names.map .recordFile)).2

private theorem reachable_afterLogging (names : List String) : Reachable (afterLogging names) :=
  Reachable.serveAll (.load (show load loggingScript {} (.folder {}) =
    .ok (fresh loggingScript {} (.folder {})) from rfl)) _

/-- Names with other characters come back, in lower case as far as they are ASCII. -/
theorem stored_names_come_back_afterLogging :
    let names := ["Aé", "É"]
    let stored := ((afterLogging names).serve .savePersistent).2.saves
    (∀ name ∈ names, NameLog.Storable name) ∧
      ({} : NameLog).merge (NameLog.recorded names).toBytes =
        (.ok (), { names := ["aé", "É"] }) ∧
      Reachable (afterLogging names) ∧ (afterLogging names).requireSaves = .ok () ∧
      ((afterLogging names).serve .savePersistent).1 = .ok .done ∧
      (fresh loggingScript {} stored).loadLog labelLogFile {} = .ok { names := ["intro"] } ∧
      (fresh loggingScript {} stored).loadLog fileLogFile {} = .ok { names := ["aé", "É"] } := by
  intro names stored
  have hnames : (NameLog.recorded names).names = ["aé", "É"] := by decide +kernel
  have hstorable : ∀ name ∈ names, NameLog.Storable name := by decide +kernel
  have hm := reachable_afterLogging names
  have hlabels : (afterLogging names).labelLog = { enabled := true, names := ["intro"] } := by
    decide +kernel
  have hfiles : (afterLogging names).fileLog =
      { enabled := true, names := ["aé", "É"] } := by
    decide +kernel
  have hrequired : (afterLogging names).requireSaves = .ok () := by decide +kernel
  have hdone : ((afterLogging names).serve .savePersistent).1 = .ok .done := by decide +kernel
  obtain ⟨hrecorded, hsession⟩ := stored_names_come_back_iff names (afterLogging names)
  have hback := (hrecorded (by rw [hnames]; decide)).mpr hstorable
  obtain ⟨hlabelLog, hfileLog⟩ := hsession hm hrequired hdone (by rw [hlabels]; decide)
    (by rw [hfiles]; decide) loggingScript {} (.splitMix 0) .standard
  rw [hlabels] at hlabelLog
  rw [hfiles] at hfileLog
  rw [hnames] at hback
  exact ⟨hstorable, hback, hm, hrequired, hdone, hlabelLog rfl,
    (hfileLog rfl).mpr (by decide +kernel)⟩

/-- The letter `æ` has the byte that is stored as a quote. A log with this name alone comes back
with another name, and one with two further names cannot be loaded: the next session does not
start. -/
theorem stored_names_lost_ligature :
    ({} : NameLog).merge (NameLog.recorded ["æ"]).toBytes = (.ok (), { names := ["\ufffd"] }) ∧
      (({} : NameLog).merge (NameLog.recorded ["æ", "b", "c"]).toBytes).1 =
        .error (.logEntryUnquoted 2) ∧
      Reachable (afterLogging ["æ", "b", "c"]) ∧
      load loggingScript {} ((afterLogging ["æ", "b", "c"]).serve .savePersistent).2.saves =
        .error (.logEntryUnquoted 2) := by
  refine ⟨by decide +kernel, by decide +kernel, reachable_afterLogging _, ?_⟩
  have hfails : (load loggingScript {}
      ((afterLogging ["æ", "b", "c"]).serve .savePersistent).2.saves).map (fun _ => ()) =
        .error (.logEntryUnquoted 2) := by
    decide +kernel
  cases hload : load loggingScript {}
      ((afterLogging ["æ", "b", "c"]).serve .savePersistent).2.saves with
  | ok m =>
    rw [hload] at hfails
    cases hfails
  | error fault =>
    rw [hload] at hfails
    exact congrArg Except.error (Except.error.inj hfails)

end Machine

end NovelScript
