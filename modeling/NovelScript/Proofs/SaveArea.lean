import NovelScript.Machine.Snapshot
import NovelScript.Proofs.Action

/-!
# Writing files

A file that is written is found again, and the others are as they were. A file whose writing the
system refuses is left as it was, and so are the others. What a machine may write is decided by the
system alone: by the refusals that are still to come for each name.
-/

namespace NovelScript

namespace Folder

private theorem lookup_cons_ite (first other : String) (contents : Bytes)
    (files : List (String × Bytes)) :
    ((first, contents) :: files).lookup other =
      if other = first then some contents else files.lookup other := by
  by_cases h : other = first
  · simp [h]
  · rw [List.lookup_cons, beq_false_of_ne h, if_neg h]

private theorem lookup_writeTo (name other : String) (bytes : Bytes)
    (files : List (String × Bytes)) :
    (writeTo name bytes files).lookup other =
      if other = name then some bytes else files.lookup other := by
  induction files with
  | nil => exact lookup_cons_ite name other bytes []
  | cons file files ih =>
    obtain ⟨first, contents⟩ := file
    rw [writeTo, lookup_cons_ite]
    by_cases hfirst : first = name
    · rw [if_pos hfirst, lookup_cons_ite, hfirst]
      by_cases h : other = name
      · rw [if_pos h, if_pos h]
      · rw [if_neg h, if_neg h, if_neg h]
    · rw [if_neg hfirst, lookup_cons_ite, ih]
      by_cases h : other = first
      · rw [if_pos h, if_pos h, if_neg (h ▸ hfirst)]
      · rw [if_neg h, if_neg h]

/-- A file that was written is read, and the others are as they were. -/
theorem read?_write (folder : Folder) (name other : String) (bytes : Bytes) :
    (folder.write name bytes).read? other =
      if other = name then some bytes else folder.read? other :=
  lookup_writeTo name other bytes folder.files

end Folder

namespace SaveArea

variable {saves : SaveArea} {name other : String} {bytes : Bytes}

/-- A file that the system lets be written has the new contents. -/
theorem read?_attempt_self (habsent : saves ≠ absent) (htaken : saves.refusals name 0 = none) :
    (saves.attempt name bytes).read? name = some bytes := by
  cases saves with
  | absent => exact absurd rfl habsent
  | missing => cases htaken
  | folder files =>
    show (files.attempt name bytes).toFolder.read? name = _
    rw [SaveFolder.attempt, show files.refusals name 0 = none from htaken]
    exact (files.toFolder.read?_write name name bytes).trans (if_pos rfl)

/-- The other files are as they were. -/
theorem read?_attempt_of_ne (saves : SaveArea) (bytes : Bytes) (h : other ≠ name) :
    (saves.attempt name bytes).read? other = saves.read? other := by
  cases saves with
  | absent | missing => rfl
  | folder files =>
    show (files.attempt name bytes).toFolder.read? other = _
    rw [SaveFolder.attempt]
    cases files.refusals name 0 with
    | none => exact (files.toFolder.read?_write name other bytes).trans (if_neg h)
    | some failure => rfl

/-- **A write that the system refuses leaves all files as they were.** -/
theorem read?_attempt_of_refused {failure : WriteFailure}
    (h : saves.refusals name 0 = some failure) (bytes : Bytes) (other : String) :
    (saves.attempt name bytes).read? other = saves.read? other := by
  cases saves with
  | absent | missing => rfl
  | folder files =>
    show (files.attempt name bytes).toFolder.read? other = _
    rw [SaveFolder.attempt, show files.refusals name 0 = some failure from h]
    rfl

/-- After an attempt to write a file, what becomes of the further ones is still to come. -/
theorem refusals_attempt (saves : SaveArea) (name other : String) (bytes : Bytes) (n : Nat) :
    (saves.attempt name bytes).refusals other n =
      saves.refusals other (if other = name then n + 1 else n) := by
  cases saves <;> rfl

/-- The system refuses nothing. -/
def Open (saves : SaveArea) : Prop :=
  ∀ name n, saves.refusals name n = none

/-- An attempt to write a file changes nothing about that. -/
theorem Open.attempt (h : saves.Open) (name : String) (bytes : Bytes) :
    (saves.attempt name bytes).Open := fun other n => by
  rw [refusals_attempt]
  exact h _ _

/-- The files of the folder, if there is one. -/
def files? : SaveArea → Option Folder
  | folder files => some files
  | absent | missing => none

/-- Where the system refuses nothing, only the files matter. -/
theorem eq_of_open {others : SaveArea} (h : saves.Open) (h' : others.Open)
    (hfiles : others.files? = saves.files?) : others = saves := by
  have hmissing : ¬ missing.Open := fun hopen => nomatch hopen "" 0
  cases saves with
  | missing => exact absurd h hmissing
  | absent =>
    cases others with
    | missing => exact absurd h' hmissing
    | absent => rfl
    | folder _ => cases hfiles
  | folder files =>
    cases others with
    | missing => exact absurd h' hmissing
    | absent => cases hfiles
    | folder others =>
      obtain ⟨files, refusals⟩ := files
      obtain ⟨others, refusals'⟩ := others
      have hsame : others = files := Option.some.inj hfiles
      have hnone : refusals = fun _ _ => none := funext fun name => funext fun n => h name n
      have hnone' : refusals' = fun _ _ => none := funext fun name => funext fun n => h' name n
      rw [hsame, hnone, hnone']

/-- A folder for saves is neither made nor lost. -/
theorem attempt_eq_absent_iff (saves : SaveArea) (name : String) (bytes : Bytes) :
    saves.attempt name bytes = absent ↔ saves = absent := by
  cases saves <;> simp [attempt]

end SaveArea

namespace Machine

/-- Whether a file can be written is up to the system. In either case the attempt was made. -/
theorem writeSaved_eq (m : Machine) (name : String) (bytes : Bytes) : writeSaved name bytes m =
    match m.saves.refusals name 0 with
    | none => .ok () { m with saves := m.saves.attempt name bytes }
    | some failure =>
      .error (.unwritten name failure) { m with saves := m.saves.attempt name bytes } := by
  show (match m.saves.refusals name 0 with
    | none => pure ()
    | some failure => throw (.unwritten name failure) : Run Unit)
      { m with saves := m.saves.attempt name bytes } = _
  cases m.saves.refusals name 0 <;> rfl

section

open Action (Keeps)

variable {I : Machine → Prop} (hI : ∀ (m : Machine) saves, I m → I { m with saves })

include hI

/-- Writing a file keeps whatever does not depend on the files. -/
theorem keeps_writeSaved_of (name : String) (bytes : Bytes) : Keeps I (writeSaved name bytes) := by
  refine .get fun m _ => .bind (.modify fun m hm => hI m _ hm) fun _ => ?_
  cases m.saves.refusals name 0 with
  | none => exact .pure _
  | some failure => exact .throw _

/-- So does writing the persistent files. -/
theorem keeps_savePersistent_of : Keeps I savePersistent := by
  have hwrite := keeps_writeSaved_of hI
  refine .get fun m _ => .doIf (hwrite _ _) (.doIf (hwrite _ _) (.doIf (hwrite _ _) ?_))
  exact .ite (fun _ => hwrite _ _) fun _ => .pure _

/-- And so does writing a save slot. -/
theorem keeps_saveSlot_of (slot : Int32) (resume : Nat) (description : Option Bytes) :
    Keeps I (saveSlot slot resume description) :=
  .get fun _ _ => .ofExcept_bind fun _ _ => keeps_writeSaved_of hI _ _

end

end Machine

end NovelScript
